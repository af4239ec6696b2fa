import Mathlib.Data.Fintype.Basic
import Mathlib.Logic.Function.Basic
import WebTester.Transition

/-!
# One server at a time

Servers that are started, told to end or killed at any time, with the calls that each of them makes
on the PID file. A file is known by its inode; the name of the PID file names one of them or none.
The lock on a file belongs to the server whose descriptor got it, and is gone when the server is;
what is unlocked through another descriptor stays locked. What is in the file is not read.
-/
namespace WebTester.PidFile
open Transition

/-- How far a server is. From `closing` on the file is the one that it has locked, if it has. -/
inductive Phase
  | ended
  | started
  | stream
  | opened (file : ℕ)
  | running (file : ℕ)
  | closing (file : Option ℕ)
  | deleting (file : Option ℕ)
  | leaving (file : Option ℕ)
  deriving DecidableEq, Repr

namespace Phase

/-- The file that is locked. -/
def lock : Phase → Option ℕ
  | .running j => some j
  | .closing l | .deleting l | .leaving l => l
  | _ => none

/-- The lock was given, and the PID file has not been deleted. -/
def Serves : Phase → Prop
  | .running _ => True
  | .closing l | .deleting l => l ≠ none
  | _ => False

/-- The file is opened and not locked yet. -/
def Opened : Phase → Prop
  | .opened _ => True
  | _ => False

instance : DecidablePred Serves
  | .running _ => inferInstanceAs (Decidable True)
  | .closing l | .deleting l => inferInstanceAs (Decidable (l ≠ none))
  | .ended | .started | .stream | .opened _ | .leaving _ => inferInstanceAs (Decidable False)

instance : DecidablePred Opened
  | .opened _ => inferInstanceAs (Decidable True)
  | .ended | .started | .stream | .running _ | .closing _ | .deleting _ | .leaving _ =>
    inferInstanceAs (Decidable False)

end Phase

variable {ι : Type*}

structure State (ι : Type*) where
  name : Option ℕ
  fresh : ℕ
  owner : ℕ → Option ι
  phase : ι → Phase

inductive Event (ι : Type*)
  | start (p : ι)
  | fopen (p : ι)
  | openFile (p : ι)
  | flock (p : ι)
  | term (p : ι)
  | reopen (p : ι)
  | unlink (p : ι)
  | exit (p : ι)
  | kill (p : ι)

variable [DecidableEq ι]

namespace State

def initial : State ι := ⟨none, 0, fun _ => none, fun _ => .ended⟩

def setPhase (p : ι) (x : Phase) (s : State ι) : State ι :=
  { s with phase := Function.update s.phase p x }

/-- `O_CREAT`: the file that the name names afterwards. -/
def create (s : State ι) : State ι × ℕ :=
  match s.name with
  | some j => (s, j)
  | none => ({ s with name := some s.fresh, fresh := s.fresh + 1 }, s.fresh)

/-- The descriptors of a process are closed. -/
def release (p : ι) (s : State ι) : State ι :=
  { s with owner := fun j => if s.owner j = some p then none else s.owner j }

/-- The end of `delete_pid_file`. -/
def unlink (p : ι) (l : Option ℕ) (s : State ι) : State ι :=
  { s.setPhase p (.leaving l) with name := none }

/-- Up to `started` the signals are caught. `fopen`, `openFile` and `flock` are `create_pid_file`;
who does not get the lock ends. `term` is `close_instance`, whose end is `delete_pid_file`: `reopen`
and `unlink`. -/
def next (s : State ι) : Event ι → Option (State ι)
  | .start p =>
    match s.phase p with
    | .ended => some (s.setPhase p .started)
    | _ => none
  | .fopen p =>
    match s.phase p with
    | .started => some (s.create.1.setPhase p .stream)
    | _ => none
  | .openFile p =>
    match s.phase p with
    | .stream => some (s.create.1.setPhase p (.opened s.create.2))
    | _ => none
  | .flock p =>
    match s.phase p with
    | .opened j =>
      if s.owner j = none then
        some { s.setPhase p (.running j) with owner := Function.update s.owner j (some p) }
      else some (s.setPhase p .ended)
    | _ => none
  | .term p =>
    match s.phase p with
    | .started | .stream | .opened _ => some (s.setPhase p (.closing none))
    | .running j => some (s.setPhase p (.closing (some j)))
    | _ => none
  | .reopen p =>
    match s.phase p with
    | .closing l => some (s.create.1.setPhase p (.deleting l))
    | _ => none
  | .unlink p =>
    match s.phase p with
    | .deleting l => some (s.unlink p l)
    | _ => none
  | .exit p =>
    match s.phase p with
    | .leaving _ => some ((s.release p).setPhase p .ended)
    | _ => none
  | .kill p => some ((s.release p).setPhase p .ended)

end State

/-- Nobody is told to end who has no lock yet, and no file is deleted while another server is
between its opening and its lock. -/
def Orderly (s : State ι) : Event ι → Prop
  | .term p => (s.phase p).lock ≠ none
  | .unlink p => ∀ q, q ≠ p → ¬(s.phase q).Opened
  | _ => True

instance [Fintype ι] (s : State ι) : ∀ e, Decidable (Orderly s e)
  | .term p => inferInstanceAs (Decidable ((s.phase p).lock ≠ none))
  | .unlink p => inferInstanceAs (Decidable (∀ q, q ≠ p → ¬(s.phase q).Opened))
  | .start _ | .fopen _ | .openFile _ | .flock _ | .reopen _ | .exit _ | .kill _ =>
    inferInstanceAs (Decidable True)

/-! ## The invariant -/

structure Inv (s : State ι) : Prop where
  owner : ∀ p j, (s.phase p).lock = some j ↔ s.owner j = some p
  opened : ∀ p j, s.phase p = .opened j → s.name = some j
  named : ∀ p, (s.phase p).Serves → s.name = (s.phase p).lock
  locked : ∀ p, s.phase p ≠ .closing none ∧ s.phase p ≠ .deleting none

namespace Inv

variable {s t : State ι} {p q : ι} {j : ℕ} {x : Phase}

omit [DecidableEq ι] in
theorem initial : Inv (State.initial : State ι) where
  owner _ _ := ⟨fun h => (by cases h), fun h => (by cases h)⟩
  opened _ _ h := by cases h
  named _ h := h.elim
  locked _ := ⟨fun h => (by cases h), fun h => (by cases h)⟩

theorem lock_ne_none (h : x.Serves) : x.lock ≠ none := by
  cases x with
  | running j => exact Option.some_ne_none j
  | closing l => exact h
  | deleting l => exact h
  | _ => exact h.elim

omit [DecidableEq ι] in
/-- The lock on the file that the name names has one owner. -/
theorem eq_of_serves (hs : Inv s) (hp : (s.phase p).Serves) (hq : (s.phase q).Serves) : p = q := by
  obtain ⟨j, hj⟩ := Option.ne_none_iff_exists'.1 (lock_ne_none hp)
  have hname := hs.named p hp
  have hlock : (s.phase q).lock = some j := (hs.named q hq).symm.trans (hname.trans hj)
  have howner := (hs.owner p j).1 hj
  rw [(hs.owner q j).1 hlock] at howner
  exact (Option.some.inj howner).symm

/-- A server goes on with the lock that it has, or without one. -/
theorem setPhase (hs : Inv s) (hlock : x.lock = (s.phase p).lock)
    (hopened : ∀ j, x = .opened j → s.name = some j)
    (hnamed : x.Serves → s.name = x.lock) (hlocked : x ≠ .closing none ∧ x ≠ .deleting none) :
    Inv (s.setPhase p x) := by
  have hphase : ∀ q, (s.setPhase p x).phase q = if q = p then x else s.phase q := fun q =>
    Function.update_apply s.phase p x q
  refine ⟨fun q j => ?_, fun q j => ?_, fun q => ?_, fun q => ?_⟩ <;> rw [hphase] <;> split
  · rename_i hq
    rw [hlock, ← hq]
    exact hs.owner q j
  · exact hs.owner q j
  · exact hopened j
  · exact hs.opened q j
  · exact hnamed
  · exact hs.named q
  · exact hlocked
  · exact hs.locked q

omit [DecidableEq ι] in
theorem create (hs : Inv s) :
    Inv s.create.1 ∧ s.create.1.phase = s.phase ∧ s.create.1.name = some s.create.2 := by
  rw [State.create]
  cases hname : s.name with
  | some j => exact ⟨hs, rfl, hname⟩
  | none =>
    refine ⟨⟨hs.owner, fun p j hj => ?_, fun p hp => ?_, hs.locked⟩, rfl, rfl⟩
    · have hopened := hs.opened p j hj
      rw [hname] at hopened
      cases hopened
    · have hlock := hs.named p hp
      rw [hname] at hlock
      exact absurd hlock.symm (lock_ne_none hp)

/-- A server gets the lock on the file that it has opened. -/
theorem flock (hs : Inv s) (hp : s.phase p = .opened j) (hfree : s.owner j = none) :
    Inv { s.setPhase p (.running j) with owner := Function.update s.owner j (some p) } := by
  have hname := hs.opened p j hp
  have hphase : ∀ q, Function.update s.phase p (.running j) q =
      if q = p then .running j else s.phase q := fun q => Function.update_apply s.phase p _ q
  have howner : ∀ k, Function.update s.owner j (some p) k =
      if k = j then some p else s.owner k := fun k => Function.update_apply s.owner j _ k
  refine ⟨fun q k => ?_, fun q k => ?_, fun q => ?_, fun q => ?_⟩ <;>
    simp only [State.setPhase, hphase, howner]
  · by_cases hq : q = p
    · rw [if_pos hq]
      by_cases hk : k = j
      · rw [if_pos hk, hq, hk]
        exact ⟨fun _ => rfl, fun _ => rfl⟩
      · rw [if_neg hk, hq, ← hs.owner p k, hp]
        exact ⟨fun h => (hk (Option.some.inj h).symm).elim, fun h => (by cases h)⟩
    · rw [if_neg hq]
      by_cases hk : k = j
      · rw [if_pos hk, hs.owner q k, hk, hfree]
        exact ⟨fun h => (by cases h), fun h => (hq (Option.some.inj h).symm).elim⟩
      · rw [if_neg hk]
        exact hs.owner q k
  · split
    · exact fun h => (by cases h)
    · exact hs.opened q k
  · split
    · exact fun _ => hname
    · exact hs.named q
  · split
    · exact ⟨fun h => (by cases h), fun h => (by cases h)⟩
    · exact hs.locked q

/-- A process ends, and its locks with it. -/
theorem ended (hs : Inv s) (p : ι) : Inv ((s.release p).setPhase p .ended) := by
  have hphase : ∀ q, Function.update s.phase p .ended q = if q = p then .ended else s.phase q :=
    fun q => Function.update_apply s.phase p _ q
  refine ⟨fun q k => ?_, fun q k => ?_, fun q => ?_, fun q => ?_⟩ <;>
    simp only [State.setPhase, State.release, hphase]
  · by_cases hq : q = p
    · rw [if_pos hq, hq]
      split
      · exact ⟨fun h => (by cases h), fun h => (by cases h)⟩
      · rename_i hk
        exact ⟨fun h => (by cases h), fun h => (hk h).elim⟩
    · rw [if_neg hq, hs.owner q k]
      split
      · rename_i hk
        rw [hk]
        exact ⟨fun h => (hq (Option.some.inj h).symm).elim, fun h => (by cases h)⟩
      · rfl
  · split
    · exact fun h => (by cases h)
    · exact hs.opened q k
  · split
    · exact fun h => h.elim
    · exact hs.named q
  · split
    · exact ⟨fun h => (by cases h), fun h => (by cases h)⟩
    · exact hs.locked q

/-- The name is taken away; nobody else relies on it. -/
theorem unlink (hs : Inv s) {l : Option ℕ} (hp : s.phase p = .deleting l)
    (hquiet : ∀ q, q ≠ p → ¬(s.phase q).Opened) : Inv (s.unlink p l) := by
  have hserves : (s.phase p).Serves := by
    rw [hp]
    intro hl
    exact (hs.locked p).2 (hl ▸ hp)
  have hphase : ∀ q, Function.update s.phase p (.leaving l) q =
      if q = p then .leaving l else s.phase q := fun q => Function.update_apply s.phase p _ q
  refine ⟨fun q k => ?_, fun q k => ?_, fun q => ?_, fun q => ?_⟩ <;>
    simp only [State.unlink, State.setPhase, hphase]
  · split
    · rename_i hq
      rw [hq, ← hs.owner p k, hp]
      rfl
    · exact hs.owner q k
  · split
    · exact fun h => (by cases h)
    · rename_i hq
      exact fun h => (hquiet q hq (by rw [h]; trivial)).elim
  · split
    · exact fun h => h.elim
    · rename_i hq
      exact fun h => (hq (hs.eq_of_serves h hserves)).elim
  · split
    · exact ⟨fun h => (by cases h), fun h => (by cases h)⟩
    · exact hs.locked q

theorem next (hs : Inv s) {e : Event ι} (horderly : Orderly s e) (ht : s.next e = some t) :
    Inv t := by
  cases e with
  | start p =>
    simp only [State.next] at ht
    split at ht <;> cases ht
    rename_i hp
    exact hs.setPhase (by rw [hp]; rfl) (fun j h => by cases h) (fun h => h.elim) (by simp)
  | fopen p =>
    simp only [State.next] at ht
    split at ht <;> cases ht
    rename_i hp
    obtain ⟨hcreated, hphase, -⟩ := hs.create
    exact hcreated.setPhase (by rw [hphase, hp]; rfl) (fun j h => by cases h) (fun h => h.elim)
      (by simp)
  | openFile p =>
    simp only [State.next] at ht
    split at ht <;> cases ht
    rename_i hp
    obtain ⟨hcreated, hphase, hname⟩ := hs.create
    refine hcreated.setPhase (by rw [hphase, hp]; rfl) (fun j h => ?_) (fun h => h.elim) (by simp)
    cases h
    exact hname
  | flock p =>
    simp only [State.next] at ht
    split at ht
    · rename_i j hp
      split at ht <;> cases ht
      · rename_i hfree
        exact hs.flock hp hfree
      · exact hs.setPhase (by rw [hp]; rfl) (fun j h => by cases h) (fun h => h.elim) (by simp)
    · cases ht
  | term p =>
    simp only [State.next] at ht
    split at ht <;> cases ht
    case h_4 j hp =>
      exact hs.setPhase (by rw [hp]; rfl) (fun k h => by cases h)
        (fun _ => by simpa [hp, Phase.Serves, Phase.lock] using hs.named p) (by simp)
    all_goals
      rename_i hp
      exact absurd (by rw [hp]; rfl) horderly
  | reopen p =>
    simp only [State.next] at ht
    split at ht <;> cases ht
    rename_i l hp
    obtain ⟨hcreated, hphase, -⟩ := hs.create
    have hl : l ≠ none := by
      rintro rfl
      exact (hs.locked p).1 hp
    refine hcreated.setPhase (by rw [hphase, hp]; rfl) (fun j h => by cases h) (fun _ => ?_)
      ⟨by simp, by simpa using hl⟩
    have hnamed := hcreated.named p
    rw [hphase, hp] at hnamed
    exact hnamed hl
  | unlink p =>
    simp only [State.next] at ht
    split at ht <;> cases ht
    rename_i l hp
    exact hs.unlink hp horderly
  | exit p =>
    simp only [State.next] at ht
    split at ht <;> cases ht
    exact hs.ended p
  | kill p =>
    cases ht
    exact hs.ended p

end Inv

/-- However the servers are started, told to end and killed, one at most has got the lock and has
not deleted the PID file; and while there is one, the name names the file that it has locked, so
that no server that is started gets the lock. -/
theorem serves_unique (es : List (Event ι)) (s : State ι)
    (hr : Run (Guarded Orderly (StepOf State.next)) State.initial es s) :
    (∀ p q, (s.phase p).Serves → (s.phase q).Serves → p = q) ∧
    ∀ p, (s.phase p).Serves → s.name = (s.phase p).lock ∧
      ∀ q j t, s.phase q = .opened j → s.next (.flock q) = some t → t.phase q = .ended := by
  have hs : Inv s := hr.invariant (fun _ _ _ h ht => h.next ht.1 ht.2) Inv.initial
  refine ⟨fun p q => hs.eq_of_serves, fun p hp => ⟨hs.named p hp, fun q j t hq ht => ?_⟩⟩
  -- the file that is opened is the one that is locked
  have hlock := hs.named p hp
  rw [hs.opened q j hq] at hlock
  have howner := (hs.owner p j).1 hlock.symm
  simp only [State.next, hq, howner] at ht
  cases ht
  exact Function.update_self q _ s.phase

/-- The second server is refused, and gets the lock when the first has ended. -/
def twoServers : List (Event (Fin 3)) :=
  [.start 0, .fopen 0, .openFile 0, .flock 0, .start 1, .fopen 1, .openFile 1, .flock 1, .term 0,
    .reopen 0, .unlink 0, .exit 0, .start 1, .fopen 1, .openFile 1, .flock 1]

lemma twoServers_isSome :
    (twoServers.foldlM (restrict Orderly State.next) (State.initial : State (Fin 3))).isSome := by
  decide +kernel

theorem serves_unique_two : ∃ s, twoServers.foldlM (restrict Orderly State.next) .initial = some s ∧
    s.phase 1 = .running 1 ∧ s.name = some 1 ∧ ∀ p, (s.phase p).Serves → p = 1 := by
  have hphase : ((twoServers.foldlM (restrict Orderly State.next) .initial).get
      twoServers_isSome).phase 1 = .running 1 := by
    decide +kernel
  have hserves := serves_unique twoServers _
    ((Run.get_foldlM _ _ twoServers_isSome).mono fun _ _ _ h => stepOf_restrict.1 h)
  have hone : (((twoServers.foldlM (restrict Orderly State.next) .initial).get
      twoServers_isSome).phase 1).Serves := by
    rw [hphase]
    trivial
  refine ⟨_, (Option.some_get twoServers_isSome).symm, hphase, ?_, fun p hp => ?_⟩
  · rw [(hserves.2 1 hone).1, hphase]
    rfl
  · exact hserves.1 p 1 hp hone

/-- The file that the second server has opened is deleted before it locks it; the third one makes a
file of its own. -/
def threeServers : List (Event (Fin 3)) :=
  [.start 0, .fopen 0, .openFile 0, .flock 0, .start 1, .fopen 1, .openFile 1, .term 0, .reopen 0,
    .unlink 0, .exit 0, .flock 1, .start 2, .fopen 2, .openFile 2, .flock 2]

example : (threeServers.foldlM State.next State.initial).map (fun s => (s.phase 1, s.phase 2)) =
    some (.running 0, .running 1) := by
  decide +kernel

end WebTester.PidFile
