import WebTester.Belts

/-!
# Single moves of tasks

Every operation of the scheduler is a sequence of moves, each of which concerns
one task. A move records what the operation has checked before it: where the task
was, that there was room, that its identity was new. Invariants of the lists are
proved for a move, and `next_run` carries them to the operations.
-/
namespace WebTester.Belts
open CString Transition

inductive Move
  | accept (k : ℤ × ℤ)
  | fill (p : ℕ)
  | overview (p : ℕ)
  | resend (p : ℕ) (sent : Bool)
  | destroy
  | take (p : ℕ)
  | chaintest (p : ℕ) (lid : ℤ)
  | finish (p : ℕ) (interrupted : Bool)
  | status (p : ℕ) (st : Status)

/-- The moves, with the conditions under which the operations make them. -/
inductive Moves (cfg : Config) (s : Server) : Move → Server → Prop
  | accept {k : ℤ × ℤ} (hroom : s.queue.length < cfg.queueSize)
      (hq : ∀ q ∈ s.queue, (s.mem q).key ≠ k) (hb : ∀ q ∈ s.belts, (s.mem q).key ≠ k) :
      Moves cfg s (.accept k) (s.acceptTask k)
  | fill {p : ℕ} {t : Server} (hp : p ∈ s.queue) (hroom : s.belts.length < cfg.beltsSize)
      (h : Server.Filled s p t) : Moves cfg s (.fill p) t
  | overview {p : ℕ} {t : Server} (hp : p ∈ s.belts) (h : Server.Overviewed s p t) :
      Moves cfg s (.overview p) t
  | resent {p : ℕ} {acc : List ℕ} (hacc : s.accumulator = some acc) (hp : p ∈ acc) :
      Moves cfg s (.resend p true)
        ({ s with accumulator := some (acc.erase p) }.log [.put p true, .free p])
  | unsent {p : ℕ} {acc : List ℕ} (hacc : s.accumulator = some acc) (hp : p ∈ acc) :
      Moves cfg s (.resend p false) (s.log [.put p false])
  | destroy (hacc : s.accumulator = some []) :
      Moves cfg s .destroy { s with accumulator := none }
  | take {p : ℕ} (hp : p ∈ s.pool) : Moves cfg s (.take p) (s.workerTake p)
  | chaintest {p : ℕ} {lid : ℤ} (hp : p ∈ s.working) :
      Moves cfg s (.chaintest p lid) (s.setTask p ((s.mem p).chaintest lid))
  | finish {p : ℕ} {interrupted : Bool} (hp : p ∈ s.working) :
      Moves cfg s (.finish p interrupted) (s.workerFinish p interrupted)
  | status {p : ℕ} {st : Status} : Moves cfg s (.status p st) (s.setStatus p st)

/-- Which moves an operation makes. -/
def Event.makes : Event → Move → Prop
  | .getTaskList _, .accept _ => True
  | .fill _, .fill _ => True
  | .overview _, .overview _ => True
  | .accumulatorOverview _, .resend _ _ => True
  | .accumulatorOverview _, .destroy => True
  | .take p, .take q => q = p
  | .chaintest p _, .chaintest q _ => q = p
  | .finish p _, .finish q _ => q = p
  | .status p _, .status q _ => q = p
  | _, _ => False

/-- The moves of one operation. -/
abbrev EventMoves (cfg : Config) (e : Event) : Server → Move → Server → Prop :=
  Guarded (fun _ m => e.makes m) (Moves cfg)

namespace Server

variable {cfg : Config}

lemma search_isSome_false {s : Server} {tasks : List ℕ} {k : ℤ × ℤ}
    (h : ¬ (s.search tasks k).isSome) : ∀ q ∈ tasks, (s.mem q).key ≠ k := by
  simpa [search] using h

/-- The places left in the queue never fall below the tasks still needed. -/
lemma takeTasks_run (reply : Option CStr) (need : ℤ) (ks : List (ℤ × ℤ)) (taked : ℤ) (s : Server)
    (hroom : s.queue.length + (need - taked) ≤ cfg.queueSize) :
    ∃ ms, Run (EventMoves cfg (.getTaskList reply)) s ms (takeTasks need ks taked s) := by
  induction ks generalizing taked s with
  | nil => exact ⟨[], .nil⟩
  | cons k ks ih =>
    simp only [takeTasks]
    split
    · exact ⟨[], .nil⟩
    · split
      · exact ih taked s hroom
      · rename_i hq
        split
        · exact ih taked s hroom
        · rename_i hb
          have hlen : ((s.acceptTask k).queue.length : ℤ) = s.queue.length + 1 := by
            simp [acceptTask]
          obtain ⟨ms, hr⟩ := ih (taked + 1) (s.acceptTask k) (by omega)
          have hmove : Moves cfg s (.accept k) (s.acceptTask k) :=
            .accept (by omega) (search_isSome_false hq) (search_isSome_false hb)
          exact ⟨.accept k :: ms, hr.cons ⟨trivial, hmove⟩⟩

lemma webifaceGetTaskList_run (reply : Option CStr) (s : Server) :
    ∃ ms, Run (EventMoves cfg (.getTaskList reply)) s ms
      (s.webifaceGetTaskList (toInt cfg.queueSize) reply) := by
  have hle : toInt cfg.queueSize ≤ cfg.queueSize := toInt_le cfg.queueSize_pos.le
  unfold webifaceGetTaskList
  split
  · exact ⟨[], .nil⟩
  · split
    · exact ⟨[], .nil⟩
    · exact takeTasks_run _ _ _ _ s (by omega)

/-- The nodes from the cursor on are still in the queue, in their order. -/
lemma Filled.sublist {s t : Server} {p : ℕ} {cur : List ℕ} (h : Filled s p t)
    (hcur : (p :: cur).Sublist s.queue) : cur.Sublist t.queue := by
  have herase : cur.Sublist (s.queue.erase p) := by
    simpa using hcur.erase p
  cases h with
  | kept => exact herase.cons p
  | _ => exact herase

lemma fillLoop_run (a : Answers) (cur : List ℕ) (s : Server) (hcur : cur.Sublist s.queue) :
    ∃ ms, Run (EventMoves cfg (.fill a)) s ms (fillLoop cfg a cur s) := by
  induction cur generalizing s with
  | nil => exact ⟨[], .nil⟩
  | cons p cur ih =>
    simp only [fillLoop]
    split
    · exact ⟨[], .nil⟩
    · rename_i hfull
      have hroom : (s.belts.length : ℤ) < cfg.beltsSize := by simpa [beltsFull] using hfull
      have hfill := fillTask_cases a s p
      obtain ⟨ms, hr⟩ := ih _ (hfill.sublist hcur)
      exact ⟨.fill p :: ms, hr.cons ⟨trivial, .fill (hcur.subset (by simp)) hroom hfill⟩⟩

lemma Overviewed.sublist {s t : Server} {p : ℕ} {cur : List ℕ} (h : Overviewed s p t)
    (hcur : (p :: cur).Sublist s.belts) : cur.Sublist t.belts := by
  have herase : cur.Sublist (s.belts.erase p) := by
    simpa using hcur.erase p
  have hkeep : cur.Sublist s.belts := (List.sublist_cons_self p cur).trans hcur
  cases h with
  | idle => exact hkeep
  | chained => exact hkeep
  | waiting => exact hkeep
  | _ => exact herase

lemma beltsOverviewStatus_run (a : Answers) (s : Server) :
    ∃ ms, Run (EventMoves cfg (.overview a)) s ms (s.beltsOverviewStatus a) := by
  refine exists_run_foldl (I := fun cur s => cur.Sublist s.belts) ?_ s.belts s
    (List.Sublist.refl _)
  intro p cur s hcur
  have h := overviewTask_cases a s p
  exact ⟨⟨.overview p, trivial, .overview (hcur.subset (by simp)) h⟩, h.sublist hcur⟩

/-- The nodes from the cursor on are still in the accumulator. -/
lemma resend_move {a : Answers} {s : Server} {p : ℕ} {cur acc : List ℕ}
    (hacc : s.accumulator = some acc) (hcur : (p :: cur).Sublist acc) :
    (∃ m, EventMoves cfg (.accumulatorOverview a) s m (s.resend a p)) ∧
      ∃ acc', (s.resend a p).accumulator = some acc' ∧ cur.Sublist acc' := by
  have hp : p ∈ acc := hcur.subset (by simp)
  unfold resend
  split
  · simp only [hacc, Option.map_some]
    exact ⟨⟨.resend p true, trivial, .resent hacc hp⟩, acc.erase p, rfl,
      by simpa using hcur.erase p⟩
  · exact ⟨⟨.resend p false, trivial, .unsent hacc hp⟩, acc, hacc,
      (List.sublist_cons_self p cur).trans hcur⟩

lemma accumulatorOverviewProc_run (a : Answers) (s : Server) :
    ∃ ms, Run (EventMoves cfg (.accumulatorOverview a)) s ms (s.accumulatorOverviewProc a) := by
  unfold accumulatorOverviewProc
  split
  · exact ⟨[], .nil⟩
  · rename_i acc hacc
    have hfold : ∃ ms, Run (EventMoves cfg (.accumulatorOverview a)) s ms
        (acc.foldl (resend a) s) :=
      exists_run_foldl (I := fun cur s => ∃ acc, s.accumulator = some acc ∧ cur.Sublist acc)
        (fun p cur s ⟨acc, hacc, hcur⟩ => resend_move hacc hcur)
        acc s ⟨acc, hacc, List.Sublist.refl _⟩
    obtain ⟨ms, hr⟩ := hfold
    dsimp only
    split
    · rename_i hempty
      exact ⟨ms ++ [Move.destroy], hr.append (Run.nil.cons ⟨trivial, .destroy hempty⟩)⟩
    · exact ⟨ms, hr⟩

lemma key_setTask {s : Server} {p : ℕ} {t : Task} (hk : t.key = (s.mem p).key) (q : ℕ) :
    ((s.setTask p t).mem q).key = (s.mem q).key := by
  by_cases hq : q = p
  · subst hq
    simpa [setTask] using hk
  · simp [setTask, hq]

lemma key_setStatus (s : Server) (p : ℕ) (st : Status) (q : ℕ) :
    ((s.setStatus p st).mem q).key = (s.mem q).key :=
  key_setTask (t := { s.mem p with status := st }) rfl q

end Server

/-- The identity of an accepted task never changes. -/
lemma Moves.key_eq {cfg : Config} {s t : Server} {m : Move} {p : ℕ} (h : Moves cfg s m t)
    (hp : p < s.spawned) : (t.mem p).key = (s.mem p).key := by
  cases h with
  | accept => simp [Server.acceptTask, hp.ne]
  | fill hmem hroom h =>
    cases h with
    | duplicate => rfl
    | sent hnew hk hs => exact s.key_setTask hk p
    | kept hk hs => exact s.key_setTask hk p
    | restored hk hs => exact s.key_setTask hk p
  | overview hmem h =>
    cases h with
    | idle => rfl
    | chained hf hk hs => exact s.key_setTask hk p
    | waiting hf hk hs => exact s.key_setTask hk p
    | delivered hf hk hs => exact s.key_setTask hk p
    | accumulated hf hk hs => exact s.key_setTask hk p
    | interrupted => rfl
  | resent => rfl
  | unsent => rfl
  | destroy => rfl
  | take => exact s.key_setStatus _ _ p
  | chaintest => exact s.key_setTask (Task.key_chaintest _ _) p
  | finish => exact s.key_setStatus _ _ p
  | status => exact s.key_setStatus _ _ p

/-- Every step of the system is a sequence of its moves. -/
theorem next_run {cfg : Config} {s t : Server} {e : Event} (h : next cfg s e = some t) :
    ∃ ms, Run (EventMoves cfg e) s ms t := by
  cases e with
  | getTaskList reply =>
    obtain rfl := Option.some.inj h
    exact s.webifaceGetTaskList_run reply
  | fill a =>
    obtain rfl := Option.some.inj h
    exact Server.fillLoop_run a s.queue s (List.Sublist.refl _)
  | overview a =>
    obtain rfl := Option.some.inj h
    exact s.beltsOverviewStatus_run a
  | accumulatorOverview a =>
    obtain rfl := Option.some.inj h
    exact s.accumulatorOverviewProc_run a
  | take p =>
    obtain ⟨hp, rfl⟩ : p ∈ s.pool ∧ s.workerTake p = t := by simpa [next] using h
    exact ⟨[.take p], Run.nil.cons ⟨rfl, .take hp⟩⟩
  | chaintest p lid =>
    obtain ⟨hp, rfl⟩ : p ∈ s.working ∧ s.setTask p ((s.mem p).chaintest lid) = t := by
      simpa [next] using h
    exact ⟨[.chaintest p lid], Run.nil.cons ⟨rfl, .chaintest hp⟩⟩
  | finish p interrupted =>
    obtain ⟨hp, rfl⟩ : p ∈ s.working ∧ s.workerFinish p interrupted = t := by
      simpa [next] using h
    exact ⟨[.finish p interrupted], Run.nil.cons ⟨rfl, .finish hp⟩⟩
  | status p st =>
    obtain rfl := Option.some.inj h
    exact ⟨[.status p st], Run.nil.cons ⟨rfl, .status⟩⟩

/-- An invariant of the moves is an invariant of the system. -/
theorem invariant_of_moves {cfg : Config} {I : Server → Prop}
    (hmove : ∀ s m t, I s → Moves cfg s m t → I t) {s t : Server} {es : List Event}
    (hr : Run (Step cfg) s es t) (hs : I s) : I t := by
  have hmoves : ∀ s e t, Step cfg s e t → ∃ ms, Run (Moves cfg) s ms t := by
    intro s e t h
    obtain ⟨ms, hm⟩ := next_run h
    exact ⟨ms, hm.of_guarded⟩
  obtain ⟨ms, hm⟩ := hr.simulate id hmoves
  exact hm.invariant hmove hs

end WebTester.Belts
