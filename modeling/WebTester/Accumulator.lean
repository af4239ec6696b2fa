import WebTester.Belts
import WebTester.Process

/-!
# The accumulator and its entry in the scheduler

A solution that could not be sent is kept in the accumulator. The entry of the scheduler that
tries to send what is kept is made together with the accumulator; the accumulator is destroyed
when it is empty, the entry is not. `tries` records every call of `wt_put_solution` from the
accumulator with its time; nothing in the program reads it.
-/
namespace WebTester.Scheduler
open Librun Transition

/-! ## Time -/

/-- A time as `now` gives it. -/
structure Moment where
  tv : TimeVal
  usec_lt : tv.usec < 1000000
  deriving DecidableEq

namespace Moment

/-- Microseconds since the start of the count. -/
def usecs (t : Moment) : ℕ := t.tv.sec * 1000000 + t.tv.usec

/-- `CHECK_TIME_DELTA`. -/
def checkTimeDelta (last cur : Moment) (interval : ℕ) : Bool :=
  tvUsecCmp (timedist last.tv cur.tv) interval == .gt

lemma checkTimeDelta_iff (last cur : Moment) (interval : ℕ) :
    checkTimeDelta last cur interval = true ↔ last.usecs + interval < cur.usecs := by
  rw [checkTimeDelta, beq_iff_eq, timedist_gt_iff last.usec_lt cur.usec_lt]
  rfl

end Moment

/-! ## The accumulator -/

/-- The list `accumulator` of `belts.c`, if there is one, and what was tried. -/
structure Accumulator where
  solutions : Option (List ℕ)
  tries : List (ℕ × Moment)

namespace Accumulator

/-- One iteration of `accumulator_overview_proc`; `put` tells whether `wt_put_solution` succeeds. -/
def resend (put : ℕ → Bool) (now : Moment) (a : Accumulator) (p : ℕ) : Accumulator where
  solutions := if put p then a.solutions.map fun l => l.erase p else a.solutions
  tries := a.tries ++ [(p, now)]

/-- `accumulator_overview_proc`. -/
def overviewProc (put : ℕ → Bool) (now : Moment) (a : Accumulator) : Accumulator :=
  match a.solutions with
  | none => a
  | some l =>
    let a := l.foldl (resend put now) a
    if a.solutions = some [] then { a with solutions := none } else a

variable {put : ℕ → Bool} {now : Moment} {a : Accumulator} {p : ℕ} {l : List ℕ}

lemma resend_tries_foldl (l : List ℕ) (a : Accumulator) :
    (l.foldl (resend put now) a).tries = a.tries ++ l.map fun p => (p, now) := by
  induction l generalizing a with
  | nil => simp
  | cons p l ih => simp [ih, resend]

lemma resend_solutions_foldl (l : List ℕ) (a : Accumulator) {kept : List ℕ}
    (h : a.solutions = some kept) :
    ∃ kept', (l.foldl (resend put now) a).solutions = some kept' ∧ kept'.Sublist kept := by
  induction l generalizing a kept with
  | nil => exact ⟨kept, h, .refl _⟩
  | cons p l ih =>
    have hone : ∃ k, (a.resend put now p).solutions = some k ∧ k.Sublist kept := by
      unfold resend
      split
      · exact ⟨kept.erase p, by simp [h], List.erase_sublist⟩
      · exact ⟨kept, h, .refl _⟩
    obtain ⟨k, hk, hsub⟩ := hone
    obtain ⟨kept', hkept', hsub'⟩ := ih (a.resend put now p) hk
    exact ⟨kept', hkept', hsub'.trans hsub⟩

/-- Every kept solution is tried once, and nothing is added. -/
lemma overviewProc_spec (put : ℕ → Bool) (now : Moment) (a : Accumulator) :
    (a.overviewProc put now).tries = a.tries ++ (a.solutions.getD []).map (fun p => (p, now)) ∧
      ((a.overviewProc put now).solutions.getD []).Sublist (a.solutions.getD []) ∧
      ((a.overviewProc put now).solutions.isSome → a.solutions.isSome) := by
  unfold overviewProc
  cases h : a.solutions with
  | none => simp [h]
  | some l =>
    obtain ⟨kept, hkept, hsub⟩ := @resend_solutions_foldl put now l a l h
    dsimp only
    split
    · simp [resend_tries_foldl]
    · simp [resend_tries_foldl, hkept, hsub]

end Accumulator

/-! ## The scheduler -/

/-- The callbacks that the server gives to the scheduler. -/
inductive Callback
  | accumulatorOverviewProc
  | loginInfoReview
  | informaticsUploadChecker
  deriving DecidableEq

/-- `scheduler_item_t`. -/
structure Item where
  callback : Callback
  interval : ℕ
  lastCall : Moment
  deriving DecidableEq

/-- Whether an entry is due at `cur`. -/
def Item.due (cur : Moment) (item : Item) : Bool := item.lastCall.checkTimeDelta cur item.interval

/-- The accumulator and the list `scheduler`. -/
structure State where
  accumulator : Accumulator
  scheduler : List Item

/-- Before the first solution and the first entry. -/
def initial : State := ⟨⟨none, []⟩, []⟩

/-- The walk of `scheduler_overview` over the entries; `put` answers for the entry of each
number. Of the callbacks only `accumulator_overview_proc` touches the accumulator. -/
def overviewItems (put : ℕ → ℕ → Bool) (cur : Moment) :
    ℕ → List Item → Accumulator → List Item × Accumulator
  | _, [], a => ([], a)
  | n, item :: items, a =>
    if item.due cur then
      let a := if item.callback = .accumulatorOverviewProc then a.overviewProc (put n) cur else a
      let r := overviewItems put cur (n + 1) items a
      ({ item with lastCall := cur } :: r.1, r.2)
    else
      let r := overviewItems put cur (n + 1) items a
      (item :: r.1, r.2)

namespace State

/-- `scheduler_add`. -/
def schedulerAdd (s : State) (callback : Callback) (interval : ℕ) (now : Moment) : State :=
  { s with scheduler := s.scheduler ++ [⟨callback, interval, now⟩] }

/-- `scheduler_remove`. -/
def schedulerRemove (s : State) (callback : Callback) : State :=
  { s with scheduler := s.scheduler.filter fun item => item.callback ≠ callback }

/-- `scheduler_overview`. -/
def schedulerOverview (s : State) (put : ℕ → ℕ → Bool) (cur : Moment) : State :=
  let r := overviewItems put cur 0 s.scheduler s.accumulator
  ⟨r.2, r.1⟩

/-- `accumulate_solution`, with `acc_overview_int`. -/
def accumulateSolution (interval : ℕ) (s : State) (p : ℕ) (now : Moment) : State :=
  match s.accumulator.solutions with
  | none =>
    { s.schedulerAdd .accumulatorOverviewProc interval now with
      accumulator := { s.accumulator with solutions := some [p] } }
  | some l => { s with accumulator := { s.accumulator with solutions := some (l ++ [p]) } }

/-- The entries for `accumulator_overview_proc`. -/
def entries (s : State) : List Item :=
  s.scheduler.filter fun item => item.callback = .accumulatorOverviewProc

end State

variable {put : ℕ → ℕ → Bool} {cur : Moment} {interval : ℕ}

/-- What an overview makes of an entry. -/
def Item.touch (cur : Moment) (item : Item) : Item :=
  if item.due cur then { item with lastCall := cur } else item

@[simp] lemma Item.touch_callback (item : Item) : (item.touch cur).callback = item.callback := by
  unfold Item.touch
  split <;> rfl

lemma overviewItems_fst (n : ℕ) (items : List Item) (a : Accumulator) :
    (overviewItems put cur n items a).1 = items.map (Item.touch cur) := by
  induction items generalizing n a with
  | nil => rfl
  | cons item items ih =>
    have htouch : item.touch cur = if item.due cur then { item with lastCall := cur } else item :=
      rfl
    rw [overviewItems, List.map_cons, htouch]
    by_cases hdue : item.due cur = true
    · simp [hdue, ih]
    · simp [hdue, ih]

lemma overviewItems_snd_of_none (n : ℕ) {items : List Item} (a : Accumulator)
    (h : items.filter (fun item => item.callback = .accumulatorOverviewProc) = []) :
    (overviewItems put cur n items a).2 = a := by
  induction items generalizing n with
  | nil => rfl
  | cons item items ih =>
    obtain ⟨hitem, hitems⟩ : item.callback ≠ .accumulatorOverviewProc ∧
        items.filter (fun item => item.callback = .accumulatorOverviewProc) = [] := by
      simpa using h
    unfold overviewItems
    by_cases hdue : item.due cur = true
    · simp [hdue, hitem, ih _ hitems]
    · simp [hdue, ih _ hitems]

/-- With one entry the accumulator is gone through at most once. -/
lemma overviewItems_snd_of_one (n : ℕ) {items : List Item} (a : Accumulator) {entry : Item}
    (h : items.filter (fun item => item.callback = .accumulatorOverviewProc) = [entry]) :
    ∃ k, (overviewItems put cur n items a).2 =
      if entry.due cur then a.overviewProc (put k) cur else a := by
  induction items generalizing n with
  | nil => simp at h
  | cons item items ih =>
    unfold overviewItems
    by_cases hitem : item.callback = .accumulatorOverviewProc
    · -- the entry is here, so none follows
      obtain ⟨rfl, hitems⟩ : item = entry ∧
          items.filter (fun item => item.callback = .accumulatorOverviewProc) = [] := by
        simpa [hitem] using h
      refine ⟨n, ?_⟩
      by_cases hdue : item.due cur = true
      · simp [hdue, hitem, overviewItems_snd_of_none _ _ hitems]
      · simp [hdue, overviewItems_snd_of_none _ _ hitems]
    · have hitems : items.filter (fun item => item.callback = .accumulatorOverviewProc) =
          [entry] := by
        simpa [hitem] using h
      obtain ⟨k, hk⟩ := ih (n + 1) hitems
      refine ⟨k, ?_⟩
      by_cases hdue : item.due cur = true
      · simp only [hdue, hitem, if_true, if_false]
        exact hk
      · simpa [hdue] using hk

namespace State

lemma entries_schedulerOverview (s : State) :
    (s.schedulerOverview put cur).entries = s.entries.map (Item.touch cur) := by
  simp only [entries, schedulerOverview, overviewItems_fst, List.filter_map]
  congr 1
  exact List.filter_congr fun item _ => by simp

end State

/-! ## The accumulator of the belts -/

lemma resend_accumulator (a : Belts.Answers) (now : Moment) (l : List ℕ) (b : Belts.Server)
    (tries : List (ℕ × Moment)) :
    (l.foldl (Belts.Server.resend a) b).accumulator =
      (l.foldl (Accumulator.resend a.sent now) ⟨b.accumulator, tries⟩).solutions := by
  induction l generalizing b tries with
  | nil => rfl
  | cons p l ih =>
    rw [List.foldl_cons, List.foldl_cons, ih]
    congr 2
    unfold Belts.Server.resend Accumulator.resend
    split <;> rfl

/-- `accumulator_overview_proc` does here what it does between the other steps of the server. -/
theorem overviewProc_accumulator (a : Belts.Answers) (now : Moment) (b : Belts.Server)
    (tries : List (ℕ × Moment)) :
    (b.accumulatorOverviewProc a).accumulator =
      ((⟨b.accumulator, tries⟩ : Accumulator).overviewProc a.sent now).solutions := by
  unfold Belts.Server.accumulatorOverviewProc Accumulator.overviewProc
  cases hacc : b.accumulator with
  | none => simp [hacc]
  | some l =>
    have hl := resend_accumulator a now l b tries
    rw [hacc] at hl
    simp only [hl]
    split <;> simp [hl]

/-- A solution that `return_tested` could not send is accumulated. -/
theorem returnTested_accumulator (a : Belts.Answers) (now : Moment) (b : Belts.Server) (p : ℕ)
    (s : State) (hs : s.accumulator.solutions = b.accumulator) (hsent : a.sent p = false) :
    (b.returnTested a p).accumulator =
      (s.accumulateSolution interval p now).accumulator.solutions := by
  unfold Belts.Server.returnTested State.accumulateSolution
  rw [← hs]
  cases s.accumulator.solutions <;> simp [hsent, Belts.Server.log]

/-! ## Runs -/

/-- The steps; `add` and `remove` are for the other callbacks. -/
inductive Event
  | accumulate (p : ℕ) (now : Moment)
  | overview (put : ℕ → ℕ → Bool) (cur : Moment)
  | add (callback : Callback) (interval : ℕ) (now : Moment)
  | remove (callback : Callback)

/-- A task that is returned by a module is in the belts and not in the accumulator. -/
def next (interval : ℕ) (s : State) : Event → Option State
  | .accumulate p now =>
    if p ∈ s.accumulator.solutions.getD [] then none
    else some (s.accumulateSolution interval p now)
  | .overview put cur => some (s.schedulerOverview put cur)
  | .add callback i now =>
    if callback = .accumulatorOverviewProc then none else some (s.schedulerAdd callback i now)
  | .remove callback =>
    if callback = .accumulatorOverviewProc then none else some (s.schedulerRemove callback)

abbrev Step (interval : ℕ) : State → Event → State → Prop := StepOf (next interval)

/-- Two tries of one solution are more than the interval apart. -/
def Spaced (interval : ℕ) (tries : List (ℕ × Moment)) : Prop :=
  tries.Pairwise fun x y => x.1 = y.1 → x.2.usecs + interval < y.2.usecs

/-- At most one entry, one while there is an accumulator, and no solution tried too often. -/
structure Scheduled (interval : ℕ) (s : State) : Prop where
  atMostOne : s.entries.length ≤ 1
  one : s.accumulator.solutions.isSome → s.entries.length = 1
  spaced : Spaced interval s.accumulator.tries

/-- The accumulator is not made while its old entry is there. -/
def NotAgain (s : State) : Event → Prop
  | .accumulate _ _ => s.accumulator.solutions = none → s.entries = []
  | .overview _ _ | .add _ _ _ | .remove _ => True

instance (s : State) (e : Event) : Decidable (NotAgain s e) :=
  match e with
  | .accumulate _ _ =>
    inferInstanceAs (Decidable (s.accumulator.solutions = none → s.entries = []))
  | .overview _ _ | .add _ _ _ | .remove _ => inferInstanceAs (Decidable True)

/-- Nothing has happened yet, or there is one entry, called last at or after every try. -/
structure Sound (interval : ℕ) (s : State) : Prop where
  nodup : (s.accumulator.solutions.getD []).Nodup
  entry : s.entries = [] ∧ s.accumulator = ⟨none, []⟩ ∨
    ∃ last, s.entries = [⟨.accumulatorOverviewProc, interval, last⟩] ∧
      ∀ x ∈ s.accumulator.tries, x.2.usecs ≤ last.usecs
  spaced : Spaced interval s.accumulator.tries

variable {s t : State} {e : Event} {p : ℕ} {now : Moment}

/-- Tries at a later time, of different solutions, may follow. -/
lemma Spaced.append {tries : List (ℕ × Moment)} {l : List ℕ} {last : Moment}
    (h : Spaced interval tries) (hlast : ∀ x ∈ tries, x.2.usecs ≤ last.usecs)
    (hcur : last.usecs + interval < cur.usecs) (hl : l.Nodup) :
    Spaced interval (tries ++ l.map fun p => (p, cur)) := by
  refine List.pairwise_append.2 ⟨h, ?_, ?_⟩
  · rw [List.pairwise_map]
    exact hl.imp fun hne heq => absurd heq hne
  · intro x hx y hy _
    obtain ⟨q, -, rfl⟩ := List.mem_map.1 hy
    have hle := hlast x hx
    dsimp only
    omega

namespace Sound

lemma scheduled (h : Sound interval s) : Scheduled interval s where
  atMostOne := by
    obtain ⟨hnone, -⟩ | ⟨last, hone, -⟩ := h.entry
    · simp [hnone]
    · simp [hone]
  one hsome := by
    obtain ⟨-, hacc⟩ | ⟨last, hone, -⟩ := h.entry
    · simp [hacc] at hsome
    · simp [hone]
  spaced := h.spaced

/-- Entries of other callbacks do not matter. -/
lemma of_entries (h : Sound interval s) (hentries : t.entries = s.entries)
    (hacc : t.accumulator = s.accumulator) : Sound interval t where
  nodup := by rw [hacc]; exact h.nodup
  entry := by rw [hentries, hacc]; exact h.entry
  spaced := by rw [hacc]; exact h.spaced

lemma accumulate (h : Sound interval s) (hp : p ∉ s.accumulator.solutions.getD [])
    (hagain : s.accumulator.solutions = none → s.entries = []) :
    Sound interval (s.accumulateSolution interval p now) := by
  unfold State.accumulateSolution
  cases hsol : s.accumulator.solutions with
  | none =>
    have hnone := hagain hsol
    obtain ⟨-, hacc⟩ | ⟨last, hone, -⟩ := h.entry
    · refine ⟨by simp, .inr ⟨now, ?_, ?_⟩, ?_⟩
      · rw [State.entries] at hnone ⊢
        simp [State.schedulerAdd, hnone]
      · simp [hacc]
      · simp [hacc, Spaced]
    · simp [hnone] at hone
  | some l =>
    have hnodup := h.nodup
    rw [hsol] at hp hnodup
    obtain ⟨-, hacc⟩ | hone := h.entry
    · simp [hacc] at hsol
    · refine ⟨?_, .inr hone, h.spaced⟩
      have hfresh : ∀ q ∈ l, q ≠ p := by
        rintro q hq rfl
        exact hp hq
      exact List.nodup_append.2 ⟨hnodup, by simp, by simpa using hfresh⟩

lemma overview (h : Sound interval s) : Sound interval (s.schedulerOverview put cur) := by
  obtain ⟨hnone, hacc⟩ | ⟨last, hone, hlast⟩ := h.entry
  · refine h.of_entries ?_ ?_
    · rw [State.entries_schedulerOverview, hnone, List.map_nil]
    · exact overviewItems_snd_of_none 0 _ hnone
  · obtain ⟨k, hk⟩ := @overviewItems_snd_of_one put cur 0 _ s.accumulator _ hone
    have hentries := @State.entries_schedulerOverview put cur s
    rw [hone, List.map_singleton, Item.touch] at hentries
    change (s.schedulerOverview put cur).accumulator = _ at hk
    split at hk
    · rename_i hdue
      rw [if_pos hdue] at hentries
      rw [Item.due, Moment.checkTimeDelta_iff] at hdue
      obtain ⟨htries, hsub, -⟩ := s.accumulator.overviewProc_spec (put k) cur
      refine ⟨?_, .inr ⟨cur, hentries, ?_⟩, ?_⟩
      · rw [hk]
        exact h.nodup.sublist hsub
      · rw [hk, htries]
        intro x hx
        obtain hx | hx := List.mem_append.1 hx
        · have hle := hlast x hx
          dsimp only at hdue
          omega
        · obtain ⟨q, -, rfl⟩ := List.mem_map.1 hx
          exact Nat.le_refl _
      · rw [hk, htries]
        exact h.spaced.append hlast hdue h.nodup
    · rename_i hdue
      rw [if_neg hdue] at hentries
      exact h.of_entries (hentries.trans hone.symm) hk

lemma step (s : State) (e : Event) (t : State) (h : Sound interval s)
    (hst : Guarded NotAgain (Step interval) s e t) : Sound interval t := by
  obtain ⟨hagain, hstep⟩ := hst
  unfold Step StepOf next at hstep
  cases e with
  | accumulate p now =>
    dsimp only at hstep
    split at hstep
    · cases hstep
    · rename_i hp
      obtain rfl := Option.some.inj hstep
      exact h.accumulate hp hagain
  | overview put cur =>
    obtain rfl := Option.some.inj hstep
    exact h.overview
  | add callback i now =>
    dsimp only at hstep
    split at hstep
    · cases hstep
    · rename_i hother
      obtain rfl := Option.some.inj hstep
      exact h.of_entries (by simp [State.entries, State.schedulerAdd, hother]) rfl
  | remove callback =>
    dsimp only at hstep
    split at hstep
    · cases hstep
    · rename_i hother
      obtain rfl := Option.some.inj hstep
      refine h.of_entries ?_ rfl
      simp only [State.entries, State.schedulerRemove, List.filter_filter]
      refine List.filter_congr fun item _ => ?_
      by_cases hitem : item.callback = .accumulatorOverviewProc
      · simp [hitem, Ne.symm hother]
      · simp [hitem]

end Sound

/-- A second accumulator brings a second entry. -/
lemma entries_again (h : Sound interval s) (hagain : ¬NotAgain s e) (hst : Step interval s e t) :
    t.entries.length = 2 := by
  cases e with
  | accumulate p now =>
    obtain ⟨hsol, hentries⟩ := Classical.not_imp.1 hagain
    obtain ⟨hnone, -⟩ | ⟨last, hone, -⟩ := h.entry
    · exact absurd hnone hentries
    · unfold Step StepOf next at hst
      dsimp only at hst
      split at hst
      · cases hst
      · obtain rfl := Option.some.inj hst
        rw [State.entries] at hone
        simp [State.accumulateSolution, hsol, State.schedulerAdd, State.entries, hone]
  | overview put cur => exact absurd trivial hagain
  | add callback i now => exact absurd trivial hagain
  | remove callback => exact absurd trivial hagain

/-- While the accumulator is not made again after it was destroyed, the scheduler has one entry
for it, and no solution is tried twice within the interval. Made again it has two. -/
theorem accumulator_scheduled {es : List Event}
    (hr : Run (Guarded NotAgain (Step interval)) initial es s) :
    Scheduled interval s ∧
      ∀ e t, Step interval s e t → ¬NotAgain s e → t.entries.length = 2 := by
  have hinit : Sound interval initial := ⟨by simp [initial], .inl ⟨rfl, rfl⟩, .nil⟩
  have hs := hr.invariant Sound.step hinit
  exact ⟨hs.scheduled, fun e t hst hagain => entries_again hs hagain hst⟩

/-- Seconds since the start of the count. -/
def second (n : ℕ) : Moment := ⟨⟨n, 0⟩, by dsimp only; omega⟩

/-- Two solutions are kept, one of them is sent at the second try. -/
def keptRun : List Event :=
  [.add .loginInfoReview 1000000 (second 0), .accumulate 1 (second 0), .accumulate 2 (second 3),
    .overview (fun _ _ => false) (second 5), .overview (fun _ p => p = 1) (second 10)]

lemma keptRun_isSome :
    (keptRun.foldlM (restrict NotAgain (next 4000000)) initial).isSome := by
  decide +kernel

theorem accumulator_scheduled_keptRun :
    Scheduled 4000000
      ((keptRun.foldlM (restrict NotAgain (next 4000000)) initial).get keptRun_isSome) :=
  (accumulator_scheduled ((Run.get_foldlM _ _ keptRun_isSome).mono fun _ _ _ h =>
    stepOf_restrict.1 h)).1

/-- The accumulator is emptied by the first overview and made again; the second overview tries to
send the solution for each of the two entries. -/
def emptiedRun : List Event :=
  [.accumulate 1 (second 0), .overview (fun _ _ => true) (second 5), .accumulate 2 (second 6),
    .overview (fun _ _ => false) (second 11)]

lemma emptiedRun_isSome : (emptiedRun.foldlM (next 4000000) initial).isSome := by
  decide +kernel

theorem accumulator_scheduled_twice :
    ¬∀ (es : List Event) (s : State), Run (Step 4000000) initial es s → Scheduled 4000000 s := by
  intro h
  have hmost := (h _ _ (Run.get_foldlM _ _ emptiedRun_isSome)).atMostOne
  exact absurd hmost (by decide +kernel)

end WebTester.Scheduler
