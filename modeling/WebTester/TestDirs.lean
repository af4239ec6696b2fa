import WebTester.Transition
import Mathlib.Data.Int.Notation
import Mathlib.Data.List.Nodup
import Mathlib.Data.List.Sort
import Mathlib.Logic.Function.Basic

/-!
# Unlinking unwanted testing directories

Every solution is tested in a directory named by its number, with a file `lock` in it while the
testing goes on. A thread that has finished its testing looks through all testing directories and
unlinks some of those without a lock. `lck_mutex` covers the creation of a directory with its
lock, and the listing; `unlink_mutex` covers all of `unlink_unwanted_testing_dirs`. Within one
process `flock_test` tells whether the file exists.
-/
namespace WebTester.Informatics.TestDirs
open Transition

/-- Where the testing thread of a solution is: `made` is between `fmkdir` and `flock_set`, which
it does under `lck_mutex`, `testing` is between `flock_set` and `flock_clear`. -/
inductive Place
  | idle
  | emptied
  | made
  | testing
  deriving DecidableEq, Repr

/-- Where `unlink_unwanted_testing_dirs` is: at the rest of its list, after `flock_test` has found
no lock in a directory, and inside `unlinkdir`. -/
inductive Reaper
  | idle
  | scan (todo : List ℤ)
  | doomed (d : ℤ) (todo : List ℤ)
  | unlinking (d : ℤ) (todo : List ℤ)
  deriving DecidableEq, Repr

structure World where
  dirs : List ℤ
  locks : ℤ → Bool
  lckMutex : Option ℤ
  thread : ℤ → Place
  reaper : Reaper

/-- What an earlier server has left, before any testing. -/
def initial (dirs : List ℤ) (locks : ℤ → Bool) : World :=
  ⟨dirs, locks, none, fun _ => .idle, .idle⟩

inductive Event
  | unlinkOwn (d : ℤ)
  | fmkdir (d : ℤ)
  | flockSet (d : ℤ)
  | flockClear (d : ℤ)
  | dirListing
  | flockTest
  | unlinkBegin
  | unlinkEnd
  | done
  deriving DecidableEq, Repr

namespace World

def moveTo (w : World) (d : ℤ) (pl : Place) : World :=
  { w with thread := Function.update w.thread d pl }

/-- `unlinkdir` removes the directory with the lock in it. -/
def unlinkdir (w : World) (d : ℤ) : World :=
  { w with dirs := w.dirs.erase d, locks := Function.update w.locks d false }

/-- The directories that a pass comes to: all but the last `keep_alive_testdirs`. -/
def unwanted (keepAlive : ℤ) (w : World) : List ℤ :=
  (w.dirs.insertionSort (· ≤ ·)).take (w.dirs.length - keepAlive).toNat

end World

/-- The threads, and the thread that is in `unlink_unwanted_testing_dirs`. A lock is created only
in a directory that exists. -/
def next (keepAlive : ℤ) (w : World) : Event → Option World
  | .unlinkOwn d => if w.thread d = .idle then some ((w.unlinkdir d).moveTo d .emptied) else none
  | .fmkdir d =>
    if w.thread d = .emptied ∧ w.lckMutex = none then
      some { w.moveTo d .made with dirs := w.dirs.insert d, lckMutex := some d }
    else none
  | .flockSet d =>
    if w.thread d = .made then
      some { w.moveTo d .testing with
        locks := Function.update w.locks d (w.locks d || d ∈ w.dirs), lckMutex := none }
    else none
  | .flockClear d =>
    if w.thread d = .testing then
      some { w.moveTo d .idle with locks := Function.update w.locks d false }
    else none
  | .dirListing =>
    if w.reaper = .idle ∧ w.lckMutex = none then
      some { w with reaper := .scan (w.unwanted keepAlive) }
    else none
  | .flockTest =>
    match w.reaper with
    | .scan (d :: todo) =>
      if w.locks d then some { w with reaper := .scan todo }
      else some { w with reaper := .doomed d todo }
    | _ => none
  | .unlinkBegin =>
    match w.reaper with
    | .doomed d todo => some { w with reaper := .unlinking d todo }
    | _ => none
  | .unlinkEnd =>
    match w.reaper with
    | .unlinking d todo => some { w.unlinkdir d with reaper := .scan todo }
    | _ => none
  | .done =>
    match w.reaper with
    | .scan [] => some { w with reaper := .idle }
    | _ => none

namespace Reaper

/-- The directory that was found without a lock and is not unlinked yet. -/
def target : Reaper → Option ℤ
  | .doomed d _ => some d
  | .unlinking d _ => some d
  | _ => none

def todo : Reaper → List ℤ
  | .idle => []
  | .scan todo => todo
  | .doomed _ todo => todo
  | .unlinking _ todo => todo

end Reaper

/-- No thread locks the directory that is about to be unlinked. -/
def Undisturbed (w : World) : Event → Prop
  | .flockSet d => w.reaper.target ≠ some d
  | _ => True

instance (w : World) : ∀ e, Decidable (Undisturbed w e)
  | .flockSet _ => inferInstanceAs (Decidable (_ ≠ _))
  | .unlinkOwn _ | .fmkdir _ | .flockClear _ | .dirListing | .flockTest | .unlinkBegin
  | .unlinkEnd | .done => inferInstanceAs (Decidable True)

/-- A directory under test is locked and spared, or it does not exist and the pass does not come
to it any more. -/
structure Spared (w : World) : Prop where
  nodup : w.dirs.Nodup
  todo : w.reaper.todo.Nodup
  target : ∀ d ∈ w.reaper.target, d ∉ w.reaper.todo
  made : ∀ d, w.thread d = .made → d ∈ w.dirs ∨ d ∉ w.reaper.todo
  testing : ∀ d, w.thread d = .testing →
    w.reaper.target ≠ some d ∧ (w.locks d ∨ d ∉ w.dirs ∧ d ∉ w.reaper.todo)

lemma spared_initial {dirs : List ℤ} (locks : ℤ → Bool) (h : dirs.Nodup) :
    Spared (initial dirs locks) where
  nodup := h
  todo := .nil
  target := by simp [initial, Reaper.target]
  made := by simp [initial]
  testing := by simp [initial]

namespace Spared

variable {w w' : World} {d : ℤ}

/-- A thread moves on and changes its own directory only. -/
lemma move (h : Spared w) {pl : Place} (hdirs : ∀ e ≠ d, e ∈ w'.dirs ↔ e ∈ w.dirs)
    (hnodup : w'.dirs.Nodup) (hlocks : ∀ e ≠ d, w'.locks e = w.locks e)
    (hreaper : w'.reaper = w.reaper) (hthread : w'.thread = Function.update w.thread d pl)
    (hmade : pl = .made → d ∈ w'.dirs)
    (htesting : pl = .testing →
      w.reaper.target ≠ some d ∧ (w'.locks d ∨ d ∉ w'.dirs ∧ d ∉ w.reaper.todo)) :
    Spared w' := by
  refine ⟨hnodup, hreaper ▸ h.todo, hreaper ▸ h.target, fun e he => ?_, fun e he => ?_⟩
  · rw [hthread] at he
    by_cases hed : e = d
    · subst hed
      rw [Function.update_self] at he
      exact .inl (hmade he)
    · rw [Function.update_of_ne hed] at he
      rw [hdirs e hed, hreaper]
      exact h.made e he
  · rw [hthread] at he
    rw [hreaper]
    by_cases hed : e = d
    · subst hed
      rw [Function.update_self] at he
      exact htesting he
    · rw [Function.update_of_ne hed] at he
      rw [hdirs e hed, hlocks e hed]
      exact h.testing e he

lemma unlinkOwn (h : Spared w) : Spared ((w.unlinkdir d).moveTo d .emptied) :=
  h.move (fun _ he => List.mem_erase_of_ne he) (h.nodup.erase d)
    (fun _ he => Function.update_of_ne he _ _) rfl rfl (by simp) (by simp)

lemma fmkdir (h : Spared w) :
    Spared { w.moveTo d .made with dirs := w.dirs.insert d, lckMutex := some d } := by
  refine h.move (d := d) (fun e he => ?_) h.nodup.insert (fun _ _ => rfl) rfl rfl
    (fun _ => List.mem_insert_self) (by simp)
  simp [he]

/-- The lock is there unless the directory has been unlinked again. -/
lemma flockSet (h : Spared w) (hmade : w.thread d = .made) (htarget : w.reaper.target ≠ some d) :
    Spared { w.moveTo d .testing with
      locks := Function.update w.locks d (w.locks d || d ∈ w.dirs), lckMutex := none } := by
  refine h.move (d := d) (fun _ _ => Iff.rfl) h.nodup
    (fun _ he => Function.update_of_ne he _ _) rfl rfl (by simp) (fun _ => ⟨htarget, ?_⟩)
  dsimp only
  rw [Function.update_self]
  rcases h.made d hmade with hdir | htodo
  · exact .inl (by simp [hdir])
  · by_cases hdir : d ∈ w.dirs
    · exact .inl (by simp [hdir])
    · exact .inr ⟨hdir, htodo⟩

lemma flockClear (h : Spared w) :
    Spared { w.moveTo d .idle with locks := Function.update w.locks d false } :=
  h.move (fun _ _ => Iff.rfl) h.nodup (fun _ he => Function.update_of_ne he _ _)
    rfl rfl (by simp) (by simp)

/-- Directories under test without a lock do not exist and are not listed. -/
lemma dirListing (h : Spared w) (keepAlive : ℤ) :
    Spared { w with reaper := .scan (w.unwanted keepAlive) } := by
  have hsub : ∀ e ∈ w.unwanted keepAlive, e ∈ w.dirs := fun e he =>
    (List.mem_insertionSort _).1 (List.mem_of_mem_take he)
  have hnodup : (w.unwanted keepAlive).Nodup :=
    ((List.perm_insertionSort _ _).nodup_iff.2 h.nodup).sublist (List.take_sublist _ _)
  refine ⟨h.nodup, hnodup, by simp [Reaper.target], fun e he => ?_, fun e he => ?_⟩
  · by_cases hdir : e ∈ w.dirs
    · exact .inl hdir
    · exact .inr fun hmem => hdir (hsub e hmem)
  · refine ⟨by simp [Reaper.target], (h.testing e he).2.imp_right fun hout => ?_⟩
    exact ⟨hout.1, fun hmem => hout.1 (hsub e hmem)⟩

/-- The pass goes on in its list; a directory that it is going to unlink is not under test. -/
lemma advance (h : Spared w) {r : Reaper} (hsub : r.todo.Sublist w.reaper.todo)
    (htarget : ∀ d ∈ r.target, d ∉ r.todo ∧ w.thread d ≠ .testing) :
    Spared { w with reaper := r } := by
  refine ⟨h.nodup, h.todo.sublist hsub, fun e he => (htarget e he).1, fun e he => ?_,
    fun e he => ⟨fun heq => (htarget e heq).2 he, ?_⟩⟩
  · exact (h.made e he).imp_right fun hnot hmem => hnot (hsub.subset hmem)
  · exact (h.testing e he).2.imp_right fun hout => ⟨hout.1, fun hmem => hout.2 (hsub.subset hmem)⟩

lemma doom {todo : List ℤ} (h : Spared w) (hreaper : w.reaper = .scan (d :: todo))
    (hlock : w.locks d = false) : Spared { w with reaper := .doomed d todo } := by
  have htodo : w.reaper.todo = d :: todo := by rw [hreaper]; rfl
  have hnodup := h.todo
  rw [htodo] at hnodup
  refine h.advance (htodo ▸ List.sublist_cons_self d todo) fun e he => ?_
  obtain rfl : d = e := Option.some.inj he
  refine ⟨(List.nodup_cons.1 hnodup).1, fun htest => ?_⟩
  rcases (h.testing d htest).2 with hl | ⟨-, hout⟩
  · simp [hlock] at hl
  · exact hout (htodo ▸ List.mem_cons_self)

lemma unlinkBegin {todo : List ℤ} (h : Spared w) (hreaper : w.reaper = .doomed d todo) :
    Spared { w with reaper := .unlinking d todo } := by
  have htarget : w.reaper.target = some d := by rw [hreaper]; rfl
  have htodo : w.reaper.todo = todo := by rw [hreaper]; rfl
  refine h.advance (htodo ▸ List.Sublist.refl todo) fun e he => ?_
  obtain rfl : d = e := Option.some.inj he
  exact ⟨htodo ▸ h.target d htarget, fun htest => (h.testing d htest).1 htarget⟩

lemma unlinkEnd {todo : List ℤ} (h : Spared w) (hreaper : w.reaper = .unlinking d todo) :
    Spared { w.unlinkdir d with reaper := .scan todo } := by
  have htarget : w.reaper.target = some d := by rw [hreaper]; rfl
  have htodo : w.reaper.todo = todo := by rw [hreaper]; rfl
  refine ⟨h.nodup.erase d, htodo ▸ h.todo, by simp [Reaper.target], fun e he => ?_, fun e he => ?_⟩
  · by_cases hed : e = d
    · subst hed
      exact .inr (htodo ▸ h.target e htarget)
    · refine (h.made e he).imp (fun hdir => ?_) fun hnot => htodo ▸ hnot
      exact (List.mem_erase_of_ne hed).2 hdir
  · obtain ⟨hne, hsafe⟩ := h.testing e he
    have hed : e ≠ d := fun heq => hne (heq ▸ htarget)
    refine ⟨by simp [Reaper.target], hsafe.imp (fun hl => ?_) fun hout => ?_⟩
    · exact (Function.update_of_ne hed _ _).trans hl
    · exact ⟨fun hmem => hout.1 (List.mem_of_mem_erase hmem), htodo ▸ hout.2⟩

end Spared

lemma spared_next (keepAlive : ℤ) (w : World) (e : Event) (w' : World) (hw : Spared w)
    (h : Guarded Undisturbed (StepOf (next keepAlive)) w e w') : Spared w' := by
  obtain ⟨hguard, h⟩ := h
  unfold StepOf next at h
  cases e with
  | unlinkOwn d =>
    obtain ⟨-, ⟨rfl⟩⟩ := Option.ite_none_right_eq_some.1 h
    exact hw.unlinkOwn
  | fmkdir d =>
    obtain ⟨-, ⟨rfl⟩⟩ := Option.ite_none_right_eq_some.1 h
    exact hw.fmkdir
  | flockSet d =>
    obtain ⟨hmade, ⟨rfl⟩⟩ := Option.ite_none_right_eq_some.1 h
    exact hw.flockSet hmade hguard
  | flockClear d =>
    obtain ⟨-, ⟨rfl⟩⟩ := Option.ite_none_right_eq_some.1 h
    exact hw.flockClear
  | dirListing =>
    obtain ⟨-, ⟨rfl⟩⟩ := Option.ite_none_right_eq_some.1 h
    exact hw.dirListing keepAlive
  | flockTest =>
    dsimp only at h
    split at h
    · next d todo hreaper =>
      split_ifs at h with hlock
      · obtain rfl := Option.some.inj h
        refine hw.advance ?_ (by simp [Reaper.target])
        rw [hreaper]
        exact List.sublist_cons_self d todo
      · obtain rfl := Option.some.inj h
        exact hw.doom hreaper (by simpa using hlock)
    · cases h
  | unlinkBegin =>
    dsimp only at h
    split at h
    · next hreaper =>
      obtain rfl := Option.some.inj h
      exact hw.unlinkBegin hreaper
    · cases h
  | unlinkEnd =>
    dsimp only at h
    split at h
    · next hreaper =>
      obtain rfl := Option.some.inj h
      exact hw.unlinkEnd hreaper
    · cases h
  | done =>
    dsimp only at h
    split at h
    · obtain rfl := Option.some.inj h
      exact hw.advance (List.nil_sublist _) (by simp [Reaper.target])
    · cases h

/-- The directory is being unlinked while its solution is tested. -/
def World.Reaped (w : World) (d : ℤ) : Prop :=
  (∃ todo, w.reaper = .unlinking d todo) ∧ w.thread d = .testing

/-- In every interleaving in which no thread sets its lock between the `flock_test` and the end of
the `unlinkdir` of its directory, no directory under test is unlinked. -/
theorem testing_dir_spared {keepAlive : ℤ} {dirs : List ℤ} {locks : ℤ → Bool} {es : List Event}
    {w : World} (hdirs : dirs.Nodup)
    (hr : Run (Guarded Undisturbed (StepOf (next keepAlive))) (initial dirs locks) es w) (d : ℤ) :
    ¬w.Reaped d := by
  have hw : Spared w := hr.invariant (spared_next keepAlive) (spared_initial locks hdirs)
  rintro ⟨⟨todo, hreaper⟩, htest⟩
  refine (hw.testing d htest).1 ?_
  rw [hreaper]
  rfl

/-- Solution 5 is tested while directory 3 is unlinked. -/
def quietRun : List Event :=
  [.unlinkOwn 5, .fmkdir 5, .flockSet 5, .dirListing, .flockTest, .unlinkBegin]

lemma quietRun_isSome :
    (quietRun.foldlM (restrict Undisturbed (next 0)) (initial [3] fun _ => false)).isSome := by
  decide +kernel

theorem testing_dir_spared_quietRun :
    ¬((quietRun.foldlM (restrict Undisturbed (next 0)) (initial [3] fun _ => false)).get
      quietRun_isSome).Reaped 5 :=
  testing_dir_spared (by decide) ((Run.get_foldlM _ _ quietRun_isSome).mono
    fun _ _ _ h => stepOf_restrict.1 h) 5

/-- Solution 3 is tested again just when its old directory has been found without a lock. -/
def raceRun : List Event :=
  [.dirListing, .flockTest, .unlinkOwn 3, .fmkdir 3, .flockSet 3, .unlinkBegin]

lemma raceRun_isSome :
    (raceRun.foldlM (next 0) (initial [3] fun _ => false)).isSome := by
  decide +kernel

theorem testing_dir_reaped : ¬∀ (es : List Event) (w : World) (d : ℤ),
    Run (StepOf (next 0)) (initial [3] fun _ => false) es w → ¬w.Reaped d := by
  intro h
  refine h _ _ 3 (Run.get_foldlM _ _ raceRun_isSome) ⟨⟨[], ?_⟩, ?_⟩
  · decide +kernel
  · decide +kernel

end WebTester.Informatics.TestDirs
