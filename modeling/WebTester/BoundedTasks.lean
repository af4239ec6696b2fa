import WebTester.Bounds
import WebTester.Reception
import WebTester.TaskChain

/-!
# The scheduler with the arrays of its tasks

A reply is read into fixed buffers, and a chain has room for `MAXCHAIN` modules. As long as
nothing is written behind them, the scheduler with its arrays does what the one with lists of
any length does.
-/
namespace WebTester.Belts.Arrays
open CString Transition TaskList Reception TaskChain

/-- A task that was read joins the queue unless it is in the queue or in the belts. The number
counts those that joined it. -/
def offer (x : Server × ℤ) (k : ℤ × ℤ) : Server × ℤ :=
  if (x.1.search x.1.queue k).isSome then x
  else if (x.1.search x.1.belts k).isSome then x
  else (x.1.acceptTask k, x.2 + 1)

/-- Enough tasks are taken. -/
def Enough (need : ℤ) (x : Server × ℤ) : Prop := need ≤ x.2

instance (need : ℤ) : DecidablePred (Enough need) := fun _ => inferInstanceAs (Decidable (_ ≤ _))

/-- `webiface_get_task_list`; no text means that the request failed. -/
def webifaceGetTaskList (queueSize : ℤ) (reply : Option CStr) (s : Server) : Option Server :=
  if queueSize ≤ s.queue.length then some s
  else match reply with
    | none => some s
    | some text => (receive (Enough (queueSize - s.queue.length)) offer text (s, 0)).map Prod.fst

/-- The steps of `Belts.next`, unless they write behind an array. -/
def next (cfg : Config) (s : Server) : Event → Option Server
  | .getTaskList reply => webifaceGetTaskList (toInt cfg.queueSize) reply s
  | .chaintest p lid =>
    if p ∈ s.working then (wtTaskChaintest (s.mem p) lid).map fun r => s.setTask p r.2 else none
  | e => Belts.next cfg s e

abbrev Step (cfg : Config) : Server → Event → Server → Prop := StepOf (next cfg)

/-- A reply fits when its body does and every task that is read before the queue is full, and a
module that is new to a chain finds room in it. -/
def Fits (cfg : Config) (s : Server) : Event → Prop
  | .getTaskList (some reply) => s.queue.length < toInt cfg.queueSize →
      Readable (Enough (toInt cfg.queueSize - s.queue.length)) offer reply (s, 0)
  | .chaintest p lid => lid ∈ (s.mem p).chain.lid ∨ (s.mem p).lid = lid ∨
      (s.mem p).chain.lid.length < TaskChain.maxChain
  | _ => True

variable {cfg : Config} {s t : Server} {e : Event}

/-! ## The lists of any length -/

lemma takeAll_eq (need : ℤ) (ks : List (ℤ × ℤ)) (taked : ℤ) (s : Server) :
    (takeAll (Enough need) offer ks (s, taked)).1 = Server.takeTasks need ks taked s := by
  induction ks generalizing taked s with
  | nil => rfl
  | cons k ks ih =>
    rw [takeAll, Server.takeTasks]
    by_cases hfull : need ≤ taked
    · rw [if_pos hfull, if_pos (show Enough need (s, taked) from hfull)]
    · rw [if_neg hfull, if_neg (show ¬Enough need (s, taked) from hfull), offer]
      dsimp only
      split_ifs
      · exact ih taked s
      · exact ih taked s
      · exact ih (taked + 1) (s.acceptTask k)

lemma webifaceGetTaskList_eq {queueSize : ℤ} {reply : Option CStr}
    (h : webifaceGetTaskList queueSize reply s = some t) :
    t = s.webifaceGetTaskList queueSize reply := by
  unfold webifaceGetTaskList at h
  unfold Server.webifaceGetTaskList
  split_ifs at h ⊢
  · exact (Option.some.inj h).symm
  · cases reply with
    | none => exact (Option.some.inj h).symm
    | some text =>
      obtain ⟨r, hr, rfl⟩ := Option.map_eq_some_iff.1 h
      dsimp only
      rw [receive_eq hr, takeAll_eq]

/-- A step with the arrays is a step with lists of any length. -/
theorem step_belts (h : Step cfg s e t) : Belts.Step cfg s e t := by
  cases e with
  | getTaskList reply => exact congrArg some (webifaceGetTaskList_eq h).symm
  | chaintest p lid =>
    obtain ⟨hp, h⟩ : p ∈ s.working ∧
        (wtTaskChaintest (s.mem p) lid).map (fun r => s.setTask p r.2) = some t := by
      simpa [StepOf, next] using h
    obtain ⟨⟨r, task⟩, hr, rfl⟩ := Option.map_eq_some_iff.1 h
    rw [wtTaskChaintest_eq hr]
    exact if_pos hp
  | fill a => exact h
  | overview a => exact h
  | accumulatorOverview a => exact h
  | take p => exact h
  | finish p interrupted => exact h
  | status p st => exact h

lemma run_belts {s₀ : Server} {es : List Event} (hr : Run (Step cfg) s₀ es s) :
    Run (Belts.Step cfg) s₀ es s :=
  hr.mono fun _ _ _ => step_belts

/-! ## Where nothing is written behind an array -/

lemma getTaskList_isSome_iff (reply : Option CStr) :
    (next cfg s (.getTaskList reply)).isSome ↔ Fits cfg s (.getTaskList reply) := by
  change (webifaceGetTaskList (toInt cfg.queueSize) reply s).isSome ↔ _
  unfold webifaceGetTaskList
  cases reply with
  | none =>
    refine iff_of_true ?_ trivial
    split <;> rfl
  | some text =>
    unfold Fits
    split_ifs with hfull
    · exact iff_of_true rfl fun hlt => absurd hfull (not_le.2 hlt)
    · rw [Option.isSome_map, receive_isSome_iff]
      exact ⟨fun h _ => h, fun h => h (not_le.1 hfull)⟩

lemma wtTaskChaintest_isSome_iff (task : Task) (lid : ℤ) :
    (wtTaskChaintest task lid).isSome ↔
      lid ∈ task.chain.lid ∨ task.lid = lid ∨ task.chain.lid.length < TaskChain.maxChain := by
  unfold wtTaskChaintest
  split_ifs with hfound hroom
  · exact iff_of_true rfl (hfound.imp_right .inl)
  · exact iff_of_true rfl (.inr (.inr hroom))
  · rw [not_or] at hfound
    exact iff_of_false Bool.false_ne_true fun h =>
      h.elim hfound.1 fun h => h.elim hfound.2 hroom

/-- A step that the scheduler can take has a result exactly when it fits the arrays. -/
theorem next_isSome_iff :
    (next cfg s e).isSome ↔ (Belts.next cfg s e).isSome ∧ Fits cfg s e := by
  cases e with
  | getTaskList reply =>
    rw [getTaskList_isSome_iff]
    exact (and_iff_right rfl).symm
  | chaintest p lid =>
    unfold next Belts.next Fits
    dsimp only
    split_ifs with hp
    · rw [Option.isSome_map, wtTaskChaintest_isSome_iff]
      exact (and_iff_right rfl).symm
    · exact iff_of_false Bool.false_ne_true fun h => Bool.false_ne_true h.1
  | fill a => exact (and_iff_left trivial).symm
  | overview a => exact (and_iff_left trivial).symm
  | accumulatorOverview a => exact (and_iff_left trivial).symm
  | take p => exact (and_iff_left trivial).symm
  | finish p interrupted => exact (and_iff_left trivial).symm
  | status p st => exact (and_iff_left trivial).symm

/-! ## Tasks and lists in every run -/

/-- Whatever the web interface, the modules and the workers answer: as long as every step fits
the arrays, an accepted task occurs once in exactly one place, and a discarded one has the
identity of a task that was on the belts when it was discarded. A step has a result exactly
when it fits. -/
theorem accepted_task_has_one_place (cfg : Config) (es : List Event) (s : Server)
    (hr : Run (Step cfg) initial es s) :
    (∀ p, .accept p ∈ s.calls → ∃ pl, s.occurrences p pl = 1 ∧
      ∀ pl', pl' ≠ pl → s.occurrences p pl' = 0) ∧
    (∀ p pl, .accept p ∉ s.calls → s.occurrences p pl = 0) ∧
    (∀ p q, .discard p q ∈ s.calls → (s.mem q).key = (s.mem p).key) ∧
    Throughout StillInBelts s.calls ∧
    ∀ e, (next cfg s e).isSome ↔ (Belts.next cfg s e).isSome ∧ Fits cfg s e := by
  obtain ⟨haccepted, hnone, hdup, hstill⟩ := exists_place_of_run (run_belts hr)
  exact ⟨haccepted, hnone, hdup, hstill, fun _ => next_isSome_iff⟩

/-- Two tasks are received, one is tested and delivered. -/
def deliveryRun : List Event :=
  [.getTaskList (some "7@1\n8@1".toList), .fill allGranted, .take 0, .finish 0 false,
    .overview allGranted]

theorem deliveryRun_isSome :
    (deliveryRun.foldlM (next (readConfig 1 4)) initial).isSome = true := by
  decide +kernel

/-- The state reached by `deliveryRun`. -/
def deliveryState : Server := (deliveryRun.foldlM (next (readConfig 1 4)) initial).get
  deliveryRun_isSome

theorem deliveryState_has_one_place :
    deliveryState.occurrences 0 .delivered = 1 ∧ deliveryState.occurrences 1 .queue = 1 ∧
    ∃ pl, deliveryState.occurrences 0 pl = 1 ∧
      ∀ pl', pl' ≠ pl → deliveryState.occurrences 0 pl' = 0 :=
  ⟨by decide +kernel, by decide +kernel,
    (accepted_task_has_one_place (readConfig 1 4) deliveryRun deliveryState
      (Run.get_foldlM _ _ deliveryRun_isSome)).1 0 (by decide +kernel)⟩

/-- The solution 1, written with 64 digits, passes the check and is copied behind its buffer. -/
theorem long_solution_not_received :
    taskListMatch (List.replicate 63 '0' ++ "1@2\n".toList) = true ∧
      (Belts.next (readConfig 4 4) initial
        (.getTaskList (some (List.replicate 63 '0' ++ "1@2\n".toList)))).isSome = true ∧
      (next (readConfig 4 4) initial
        (.getTaskList (some (List.replicate 63 '0' ++ "1@2\n".toList)))).isSome = false := by
  decide +kernel

/-- As long as every step fits the arrays, the belts and the queue keep to their sizes and hold
pairwise distinct pairs of solution and module. A step has a result exactly when it fits. -/
theorem lists_bounded_and_distinct (cfg : Config) (es : List Event) (s : Server)
    (hr : Run (Step cfg) initial es s) :
    s.belts.length ≤ cfg.beltsSize ∧ s.queue.length ≤ cfg.queueSize ∧
      ((s.queue ++ s.belts).map fun p => ((s.mem p).sid, (s.mem p).lid)).Nodup ∧
      ∀ e, (next cfg s e).isSome ↔ (Belts.next cfg s e).isSome ∧ Fits cfg s e := by
  have hbounded := bounded_of_run (run_belts hr)
  exact ⟨hbounded.belts, hbounded.queue, hbounded.distinct, fun _ => next_isSome_iff⟩

theorem deliveryState_bounded :
    deliveryState.queue = [1] ∧ (deliveryState.belts.length : ℤ) ≤ 1 :=
  ⟨by decide +kernel, (lists_bounded_and_distinct (readConfig 1 4) deliveryRun deliveryState
    (Run.get_foldlM _ _ deliveryRun_isSome)).1⟩

/-- The second task of a reply that passes the check does not fit, when the first one has
already joined the queue. -/
theorem long_second_task_not_received :
    taskListMatch ("7@1\n".toList ++ List.replicate 64 '8' ++ "@1\n".toList) = true ∧
      (next (readConfig 4 4) initial (.getTaskList
        (some ("7@1\n".toList ++ List.replicate 64 '8' ++ "@1\n".toList)))).isSome = false := by
  decide +kernel

end WebTester.Belts.Arrays
