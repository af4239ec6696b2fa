import WebTester.Dispatches
import WebTester.Moves
import Mathlib.Data.List.Sort

/-!
# The order of the queue

`belts_fill` deletes the node of every task it comes to. A task that is to be kept is put back
by `dyna_push`, in front of the queue, so that two tasks kept by one pass change places.
-/
namespace WebTester.Belts
open Transition

/-- Two entries of a list without repetitions have one order. -/
lemma not_swapped {α : Type*} {l : List α} {x y : α} (hl : l.Nodup) (hxy : [x, y].Sublist l) :
    ¬[y, x].Sublist l := by
  intro hyx
  induction l with
  | nil => cases hxy
  | cons z l ih =>
    obtain ⟨hz, hl⟩ := List.nodup_cons.1 hl
    cases hxy with
    | cons _ hxy =>
      cases hyx with
      | cons _ hyx => exact ih hl hxy hyx
      | cons_cons _ hyx => exact hz (hxy.subset (by simp))
    | cons_cons _ hy =>
      cases hyx with
      | cons _ hyx => exact hz (hyx.subset (by simp))
      | cons_cons _ hx => exact hz (hx.subset (by simp))

/-- The tasks among `cur` that one pass of `belts_fill` is asked to keep. It comes to them in
their order while there is room on the belts; `keys` are the keys on the belts, whose duplicates
are left out. -/
def askedToKeep (a : Answers) (mem : ℕ → Task) : List ℕ → ℤ → List (ℤ × ℤ) → List ℕ
  | [], _, _ => []
  | p :: cur, room, keys =>
    let d : Dispatch := .fromQueue (a.replied p) (a.start p 0)
    if room ≤ 0 then []
    else if (mem p).key ∈ keys then askedToKeep a mem cur room keys
    else if d.succeeds (mem p) then askedToKeep a mem cur (room - 1) (keys ++ [(mem p).key])
    else if d.setsFlag (mem p) then p :: askedToKeep a mem cur room keys
    else askedToKeep a mem cur room keys

lemma askedToKeep_congr (a : Answers) {mem mem' : ℕ → Task} {cur : List ℕ} (room : ℤ)
    (keys : List (ℤ × ℤ)) (h : ∀ q ∈ cur, mem q = mem' q) :
    askedToKeep a mem cur room keys = askedToKeep a mem' cur room keys := by
  induction cur generalizing room keys with
  | nil => rfl
  | cons p cur ih =>
    have ih' := fun room keys => ih room keys fun q hq => h q (List.mem_cons_of_mem p hq)
    simp only [askedToKeep, h p List.mem_cons_self, ih']

namespace Server

variable {cfg : Config} {a : Answers} {s : Server} {p : ℕ}

/-- The tasks that a pass over the whole queue is asked to keep. -/
def keptByFill (cfg : Config) (a : Answers) (s : Server) : List ℕ :=
  askedToKeep a s.mem s.queue (cfg.beltsSize - s.belts.length) (s.belts.map fun q => (s.mem q).key)

/-! ## One iteration -/

lemma beltsFull_iff (s : Server) (cfg : Config) :
    s.beltsFull cfg = true ↔ cfg.beltsSize - s.belts.length ≤ 0 := by
  rw [beltsFull, decide_eq_true_iff]
  omega

lemma search_eq_none_iff (s : Server) (k : ℤ × ℤ) :
    s.search s.belts k = none ↔ k ∉ s.belts.map fun q => (s.mem q).key := by
  simp [search]

lemma fillTask_of_duplicate (h : (s.mem p).key ∈ s.belts.map fun q => (s.mem q).key) :
    (s.fillTask a p).queue = s.queue.erase p ∧ (s.fillTask a p).belts = s.belts ∧
      (s.fillTask a p).mem = s.mem := by
  have hsome : s.search s.belts (s.mem p).key ≠ none := by
    rw [ne_eq, search_eq_none_iff, not_not]
    exact h
  unfold fillTask
  dsimp only
  split
  · exact ⟨rfl, rfl, rfl⟩
  · next hnone => exact absurd hnone hsome

lemma fillTask_of_new (h : (s.mem p).key ∉ s.belts.map fun q => (s.mem q).key) :
    let d : Dispatch := .fromQueue (a.replied p) (a.start p 0)
    (s.fillTask a p).queue =
        (if !d.succeeds (s.mem p) && d.setsFlag (s.mem p) then p :: s.queue.erase p
          else s.queue.erase p) ∧
      (s.fillTask a p).belts = (if d.succeeds (s.mem p) then s.belts ++ [p] else s.belts) ∧
      (s.fillTask a p).mem = Function.update s.mem p (d.attempt (s.mem p)).2 := by
  have hnone : ({ s with queue := s.queue.erase p } : Server).search s.belts (s.mem p).key = none :=
    (s.search_eq_none_iff _).2 h
  unfold fillTask
  dsimp only
  rw [hnone]
  simp only [Dispatch.fst_sendForTesting, Dispatch.snd_fromQueue,
    ← Dispatch.keepInQueue_fromQueue]
  cases hs : (Dispatch.fromQueue (a.replied p) (a.start p 0)).succeeds (s.mem p) <;>
    cases hk : ((s.mem p).sendForTesting (a.replied p) (a.start p 0)).2.keepInQueue <;>
    exact ⟨rfl, rfl, rfl⟩

lemma key_fillTask (q : ℕ) : ((s.fillTask a p).mem q).key = (s.mem q).key := by
  have hfilled := s.fillTask_cases a p
  generalize s.fillTask a p = t at hfilled ⊢
  cases hfilled with
  | duplicate => rfl
  | sent _ hk _ => exact key_setTask hk q
  | kept hk _ => exact key_setTask hk q
  | restored hk _ => exact key_setTask hk q

/-- The records of the tasks still to come are untouched, and so are all keys. -/
lemma askedToKeep_fillTask (room : ℤ) {cur : List ℕ} (hp : p ∉ cur) :
    askedToKeep a (s.fillTask a p).mem cur room
        ((s.fillTask a p).belts.map fun q => ((s.fillTask a p).mem q).key) =
      askedToKeep a s.mem cur room ((s.fillTask a p).belts.map fun q => (s.mem q).key) := by
  have hmem : ∀ q ∈ cur, (s.fillTask a p).mem q = s.mem q := by
    intro q hq
    have hne : q ≠ p := fun h => hp (h ▸ hq)
    by_cases hdup : (s.mem p).key ∈ s.belts.map fun q => (s.mem q).key
    · rw [(fillTask_of_duplicate hdup).2.2]
    · rw [(fillTask_of_new hdup).2.2, Function.update_of_ne hne]
  have hkeys : ((s.fillTask a p).belts.map fun q => ((s.fillTask a p).mem q).key) =
      (s.fillTask a p).belts.map fun q => (s.mem q).key :=
    List.map_congr_left fun q _ => key_fillTask q
  rw [hkeys, askedToKeep_congr a room _ hmem]

/-! ## One pass -/

/-- What is kept is in front of the queue, the last one first, and what the pass has not come to
is behind it. -/
lemma fillLoop_queue {kept cur : List ℕ} (hq : s.queue = kept ++ cur) (hn : (kept ++ cur).Nodup) :
    let w := askedToKeep a s.mem cur (cfg.beltsSize - s.belts.length)
      (s.belts.map fun q => (s.mem q).key)
    ∃ rest, (fillLoop cfg a cur s).queue = w.reverse ++ (kept ++ rest) ∧
      (w ++ rest).Sublist cur := by
  induction cur generalizing s kept with
  | nil => exact ⟨[], by simpa [fillLoop, askedToKeep] using hq, .slnil⟩
  | cons p cur ih =>
    rw [fillLoop]
    by_cases hfull : s.beltsFull cfg
    · simp only [if_pos hfull, askedToKeep, if_pos ((s.beltsFull_iff cfg).1 hfull)]
      exact ⟨p :: cur, by simpa using hq, List.Sublist.refl _⟩
    have hroom : ¬cfg.beltsSize - s.belts.length ≤ 0 := fun h => hfull ((s.beltsFull_iff cfg).2 h)
    obtain ⟨hp, hn'⟩ := List.nodup_middle.1 hn |> List.nodup_cons.1
    have hpk : p ∉ kept := fun h => hp (List.mem_append_left cur h)
    have hpc : p ∉ cur := fun h => hp (List.mem_append_right kept h)
    have herase : s.queue.erase p = kept ++ cur := by
      rw [hq, List.erase_append_right _ hpk, List.erase_cons_head]
    have hask := fun room => askedToKeep_fillTask (a := a) (s := s) room hpc
    simp only [if_neg hfull, askedToKeep, if_neg hroom]
    by_cases hdup : (s.mem p).key ∈ s.belts.map fun q => (s.mem q).key
    · obtain ⟨hqueue, hbelts, -⟩ := fillTask_of_duplicate (a := a) hdup
      obtain ⟨rest, hend, hsub⟩ := ih (hqueue.trans herase) hn'
      rw [hask, hbelts] at hend hsub
      rw [if_pos hdup]
      exact ⟨rest, hend, hsub.cons p⟩
    obtain ⟨hqueue, hbelts, -⟩ := fillTask_of_new (a := a) hdup
    rw [herase] at hqueue
    rw [if_neg hdup]
    cases hsucc : (Dispatch.fromQueue (a.replied p) (a.start p 0)).succeeds (s.mem p) with
    | true =>
      rw [hsucc, if_neg (by simp)] at hqueue
      rw [hsucc, if_pos rfl] at hbelts
      obtain ⟨rest, hend, hsub⟩ := ih hqueue hn'
      rw [hask, hbelts, List.map_append] at hend hsub
      have hlen : cfg.beltsSize - ((s.belts ++ [p]).length : ℤ) =
          cfg.beltsSize - s.belts.length - 1 := by
        rw [List.length_append, List.length_singleton]
        omega
      rw [hlen] at hend hsub
      exact ⟨rest, hend, hsub.cons p⟩
    | false =>
      rw [hsucc, if_neg Bool.false_ne_true] at hbelts
      rw [hsucc, Bool.not_false, Bool.true_and] at hqueue
      rw [if_neg Bool.false_ne_true]
      split_ifs at hqueue ⊢
      · have hkept : (s.fillTask a p).queue = (p :: kept) ++ cur := hqueue
        obtain ⟨rest, hend, hsub⟩ := ih hkept (List.nodup_cons.2 ⟨hp, hn'⟩)
        rw [hask, hbelts] at hend hsub
        exact ⟨rest, by simpa using hend, hsub.cons_cons p⟩
      · obtain ⟨rest, hend, hsub⟩ := ih hqueue hn'
        rw [hask, hbelts] at hend hsub
        exact ⟨rest, hend, hsub.cons p⟩

/-- A pass leaves the waiting tasks in their order exactly when it keeps at most one. -/
theorem beltsFill_sublist_iff (hn : s.queue.Nodup) :
    (s.beltsFill cfg a).queue.Sublist s.queue ↔ (s.keptByFill cfg a).length ≤ 1 := by
  obtain ⟨rest, hend, hsub⟩ := @fillLoop_queue cfg a s [] s.queue rfl hn
  change (s.beltsFill cfg a).queue = (s.keptByFill cfg a).reverse ++ rest at hend
  change (s.keptByFill cfg a ++ rest).Sublist s.queue at hsub
  rw [hend]
  generalize s.keptByFill cfg a = kept at hsub ⊢
  rcases kept with _ | ⟨x, _ | ⟨y, kept⟩⟩
  · simpa using hsub
  · simpa using hsub
  · refine iff_of_false (fun hrev => ?_) (by simp)
    have hxy : [x, y].Sublist s.queue := by
      refine List.Sublist.trans ?_ hsub
      simp
    have hyx : [y, x].Sublist s.queue := by
      refine List.Sublist.trans ?_ hrev
      rw [List.reverse_cons, List.reverse_cons, List.append_assoc, List.append_assoc]
      exact (List.Sublist.refl [y, x]).append (List.nil_sublist rest) |>.trans
        (List.sublist_append_right _ _)
    exact not_swapped hn hxy hyx

lemma spawned_beltsFill : (s.beltsFill cfg a).spawned = s.spawned := by
  obtain ⟨ms, hr⟩ := @next_run cfg s _ (.fill a) rfl
  refine hr.invariant (I := fun t => t.spawned = s.spawned) ?_ rfl
  rintro t m u ht ⟨hmakes, hmove⟩
  cases hmove with
  | fill _ _ hfilled => cases hfilled <;> exact ht
  | _ => exact hmakes.elim

end Server

/-! ## Runs -/

/-- A pass over the queue keeps at most one task. -/
def KeepsOne (cfg : Config) (s : Server) : Event → Prop
  | .fill a => (s.keptByFill cfg a).length ≤ 1
  | _ => True

instance (cfg : Config) (s : Server) : ∀ e, Decidable (KeepsOne cfg s e)
  | .fill _ => inferInstanceAs (Decidable (_ ≤ _))
  | .getTaskList _ | .overview _ | .accumulatorOverview _ | .take _ | .chaintest _ _ | .finish _ _
  | .status _ _ => inferInstanceAs (Decidable True)

/-- The queue is in the order in which its tasks were accepted. -/
structure InOrder (s : Server) : Prop where
  sorted : s.queue.Pairwise (· < ·)
  accepted : ∀ p ∈ s.queue, p < s.spawned

variable {cfg : Config}

lemma InOrder.acceptTask {s : Server} (h : InOrder s) (k : ℤ × ℤ) : InOrder (s.acceptTask k) where
  sorted := List.pairwise_append.2 ⟨h.sorted, List.pairwise_singleton _ _, by
    simpa using h.accepted⟩
  accepted := by
    intro p hp
    rcases List.mem_append.1 hp with hp | hp
    · exact Nat.lt_succ_of_lt (h.accepted p hp)
    · exact Nat.lt_succ_of_le (List.mem_singleton.1 hp).le

lemma inOrder_moves {s t : Server} {m : Move} (hs : InOrder s) (h : Moves cfg s m t)
    (hm : ∀ p, m ≠ .fill p) : InOrder t := by
  cases h with
  | accept => exact hs.acceptTask _
  | fill => exact absurd rfl (hm _)
  | overview _ hview => cases hview <;> exact ⟨hs.sorted, hs.accepted⟩
  | _ => exact ⟨hs.sorted, hs.accepted⟩

lemma inOrder_step (s : Server) (e : Event) (t : Server) (hs : InOrder s)
    (h : Guarded (KeepsOne cfg) (Step cfg) s e t) : InOrder t := by
  obtain ⟨hkeep, hstep⟩ := h
  by_cases hfill : ∃ a, e = .fill a
  · obtain ⟨a, rfl⟩ := hfill
    obtain rfl := Option.some.inj hstep
    have hn : s.queue.Nodup := hs.sorted.imp Nat.ne_of_lt
    have hsub := (Server.beltsFill_sublist_iff hn).2 hkeep
    refine ⟨hs.sorted.sublist hsub, fun p hp => ?_⟩
    rw [Server.spawned_beltsFill]
    exact hs.accepted p (hsub.subset hp)
  · obtain ⟨ms, hr⟩ := next_run hstep
    refine hr.invariant ?_ hs
    rintro t m u ht ⟨hmakes, hmove⟩
    refine inOrder_moves ht hmove ?_
    rintro p rfl
    cases e with
    | fill a => exact hfill ⟨a, rfl⟩
    | _ => exact hmakes.elim

lemma inOrder_of_run {es : List Event} {s : Server}
    (hr : Run (Guarded (KeepsOne cfg) (Step cfg)) initial es s) : InOrder s :=
  hr.invariant inOrder_step ⟨.nil, by simp [initial]⟩

lemma InOrder.sublist {s : Server} (h : InOrder s) {p q : ℕ} (hp : p ∈ s.queue)
    (hq : q ∈ s.queue) (hlt : p < q) : [p, q].Sublist s.queue := by
  have hsubset : [p, q] ⊆ s.queue := by simp [hp, hq]
  have hnodup : [p, q].Nodup := by simp [hlt.ne]
  have hpair : [p, q].Pairwise (· < ·) := by simp [hlt]
  exact List.sublist_of_subperm_of_pairwise (List.subperm_of_subset hnodup hsubset) hpair h.sorted

/-- A pass leaves the waiting tasks in their order exactly when it keeps at most one; and in every
run whose passes do so, two waiting tasks are never swapped. -/
theorem waiting_order_kept (cfg : Config) :
    (∀ (a : Answers) (s : Server), s.queue.Nodup →
      ((s.beltsFill cfg a).queue.Sublist s.queue ↔ (s.keptByFill cfg a).length ≤ 1)) ∧
    ∀ (es fs : List Event) (s t : Server) (p q : ℕ),
      Run (Guarded (KeepsOne cfg) (Step cfg)) initial es s →
      Run (Guarded (KeepsOne cfg) (Step cfg)) s fs t →
      [p, q].Sublist s.queue → p ∈ t.queue → q ∈ t.queue → [p, q].Sublist t.queue := by
  refine ⟨fun a s => Server.beltsFill_sublist_iff, fun es fs s t p q hs ht hpq hp hq => ?_⟩
  have hlt : p < q := by
    have hpair := (inOrder_of_run hs).sorted.sublist hpq
    simpa using hpair
  exact (inOrder_of_run (hs.append ht)).sublist hp hq hlt

/-- The module keeps task 0 and takes the others. -/
def fillAnswers : Answers :=
  ⟨fun _ => true, fun p _ => if p = 0 then .refused true else .started, fun _ => true⟩

def receiveRun : List Event := [.getTaskList (some "5@1\n6@1\n7@1".toList)]

lemma receiveRun_isSome :
    (receiveRun.foldlM (restrict (KeepsOne (readConfig 1 4)) (next (readConfig 1 4)))
      initial).isSome := by
  decide +kernel

lemma fillRun_isSome :
    ([Event.fill fillAnswers].foldlM (restrict (KeepsOne (readConfig 1 4)) (next (readConfig 1 4)))
      ((receiveRun.foldlM (restrict (KeepsOne (readConfig 1 4)) (next (readConfig 1 4)))
        initial).get receiveRun_isSome)).isSome := by
  decide +kernel

/-- There is no room for task 2, which stays behind task 0. -/
theorem waiting_order_kept_fillRun :
    [0, 2].Sublist (([Event.fill fillAnswers].foldlM
      (restrict (KeepsOne (readConfig 1 4)) (next (readConfig 1 4)))
      ((receiveRun.foldlM (restrict (KeepsOne (readConfig 1 4)) (next (readConfig 1 4)))
        initial).get receiveRun_isSome)).get fillRun_isSome).queue := by
  have hs := (Run.get_foldlM _ _ receiveRun_isSome).mono fun _ _ _ h => stepOf_restrict.1 h
  have ht := (Run.get_foldlM _ _ fillRun_isSome).mono fun _ _ _ h => stepOf_restrict.1 h
  refine (waiting_order_kept (readConfig 1 4)).2 _ _ _ _ 0 2 hs ht ?_ ?_ ?_
  · decide +kernel
  · decide +kernel
  · decide +kernel

/-- Every module asks to wait. -/
def busyAnswers : Answers := ⟨fun _ => true, fun _ _ => .refused true, fun _ => true⟩

def twoReceived : Server := initial.webifaceGetTaskList 4 (some "5@1\n6@1".toList)

theorem waiting_order_reversed : ¬∀ (a : Answers) (s : Server), s.queue.Nodup →
    (s.beltsFill (readConfig 4 4) a).queue.Sublist s.queue := by
  intro h
  have hsub := h busyAnswers twoReceived (by decide +kernel)
  exact absurd hsub (by decide +kernel)

end WebTester.Belts
