import WebTester.Bits
import WebTester.Transition
import Mathlib.Data.Int.Notation
import Mathlib.Data.List.Basic
import Mathlib.Data.List.Count
import Mathlib.Logic.Function.Basic

/-!
# The belts of libRUN

The owner of a process executes it, waits for it and frees it; in between, the executing thread
puts it on the belts and takes it off again, unless it ends before. `belts_append` and
`belts_remove` are one step each, because every use of the belts holds `belts_mutex`.
`run_belts_overview` holds the mutex over many steps. A change of a flag is a read and a write of
the whole word, and only the changes of `PF_INBELTS` are made under the mutex by every thread.
-/
namespace WebTester.Librun.RunBelts
open Bits Transition

abbrev Word := BitVec 32

def pfZombied : Word := 0x0001#32
def pfPipeClosing : Word := 0x0002#32
def pfKilling : Word := 0x0004#32
def pfInbelts : Word := 0x0010#32

/-- How far a process has come. `setting` and `clearing` are inside `proc_close_pipe`, with the
word of flags that was read last. -/
inductive Place
  | created
  | unstarted
  | started
  | running
  | setting (w : Word)
  | closing
  | clearing (w : Word)
  | closed
  | ended
  | joined
  | leaving
  | waited
  | freed
  deriving DecidableEq, Repr

/-- `run_belts_overview`: outside of the mutex, at the nodes from the cursor on, or about to write
the flags of the process at the cursor. -/
inductive Overview (ι : Type*)
  | idle
  | review (cur : List ι)
  | writing (w : Word) (cur : List ι)
  deriving DecidableEq, Repr

structure Sys (ι : Type*) where
  flags : ι → Word
  place : ι → Place
  belts : List ι
  overview : Overview ι

/-- Two exits of `execute_thread` leave the process on the belts. -/
inductive Exit
  | notFound
  | noPipe
  deriving DecidableEq, Repr

/-- The flags that `run_belts_overview` and `run_kill_process` set and clear. -/
inductive Mark
  | zombied
  | killing
  deriving DecidableEq, Repr

def Mark.mask : Mark → Word
  | .zombied => pfZombied
  | .killing => pfKilling

/-- `execute` to `remove` are `run_execute_process` and the executing thread, `join` to `leave`
are `run_pwait`, and the last ones are `run_belts_overview`. -/
inductive Event (ι : Type*)
  | execute (p : ι) (threadCreated : Bool)
  | append (p : ι)
  | exit (p : ι) (e : Exit)
  | readFlags (p : ι)
  | writeFlags (p : ι)
  | remove (p : ι)
  | join (p : ι)
  | testFlag (p : ι)
  | leave (p : ι)
  | free (p : ι)
  | lock
  | load
  | store (m : Mark) (set : Bool)
  | step
  | unlock
  deriving DecidableEq, Repr

variable {ι : Type*} [DecidableEq ι]

def initial : Sys ι := ⟨fun _ => 0, fun _ => .created, [], .idle⟩

namespace Sys

/-- `RUN_PROC_TEST_FLAG (*p, PF_INBELTS)`. -/
def inBelts (s : Sys ι) (p : ι) : Bool := test (s.flags p) pfInbelts

def moveTo (s : Sys ι) (p : ι) (pl : Place) : Sys ι :=
  { s with place := Function.update s.place p pl }

def setFlags (s : Sys ι) (p : ι) (w : Word) : Sys ι :=
  { s with flags := Function.update s.flags p w }

def beltsAppend (s : Sys ι) (p : ι) : Sys ι :=
  { s.setFlags p (s.flags p ||| pfInbelts) with belts := s.belts ++ [p] }

/-- The node to delete is found by the unique number. -/
def beltsRemove (unique : ι → ℤ) (s : Sys ι) (p : ι) : Sys ι :=
  if s.inBelts p then
    { s.setFlags p (s.flags p &&& ~~~pfInbelts) with
      belts := match s.belts.find? fun q => unique q = unique p with
        | some q => s.belts.erase q
        | none => s.belts }
  else s

end Sys

/-- The mutex is free when `run_belts_overview` is not under way. -/
def next (unique : ι → ℤ) (s : Sys ι) : Event ι → Option (Sys ι)
  | .execute p threadCreated =>
    if s.place p = .created then
      if unique p < 0 ∨ !threadCreated then some (s.moveTo p .unstarted)
      else some (s.moveTo p .started)
    else none
  | .append p =>
    if s.place p = .started ∧ s.overview = .idle then some ((s.beltsAppend p).moveTo p .running)
    else none
  | .exit p _ => if s.place p = .running then some (s.moveTo p .ended) else none
  | .readFlags p =>
    match s.place p with
    | .running =>
      if test (s.flags p) pfPipeClosing then some (s.moveTo p .closed)
      else some (s.moveTo p (.setting (s.flags p)))
    | .closing => some (s.moveTo p (.clearing (s.flags p)))
    | _ => none
  | .writeFlags p =>
    match s.place p with
    | .setting w => some ((s.setFlags p (w ||| pfPipeClosing)).moveTo p .closing)
    | .clearing w => some ((s.setFlags p (w &&& ~~~pfPipeClosing)).moveTo p .closed)
    | _ => none
  | .remove p =>
    if s.place p = .closed ∧ s.overview = .idle then
      some ((s.beltsRemove unique p).moveTo p .ended)
    else none
  | .join p =>
    match s.place p with
    | .unstarted => some (s.moveTo p .waited)
    | .ended => some (s.moveTo p .joined)
    | _ => none
  | .testFlag p =>
    if s.place p = .joined then
      if s.inBelts p then some (s.moveTo p .leaving) else some (s.moveTo p .waited)
    else none
  | .leave p =>
    if s.place p = .leaving ∧ s.overview = .idle then
      some ((s.beltsRemove unique p).moveTo p .waited)
    else none
  | .free p => if s.place p = .waited then some (s.moveTo p .freed) else none
  | .lock => if s.overview = .idle then some { s with overview := .review s.belts } else none
  | .load =>
    match s.overview with
    | .review (p :: cur) => some { s with overview := .writing (s.flags p) (p :: cur) }
    | _ => none
  | .store m set =>
    match s.overview with
    | .writing w (p :: cur) =>
      some { s.setFlags p (if set then w ||| m.mask else w &&& ~~~m.mask) with
        overview := .review (p :: cur) }
    | _ => none
  | .step =>
    match s.overview with
    | .review (_ :: cur) => some { s with overview := .review cur }
    | _ => none
  | .unlock =>
    match s.overview with
    | .review [] => some { s with overview := .idle }
    | _ => none

/-! ## Words of flags -/

lemma test_inbelts_or : ∀ m ∈ [pfZombied, pfPipeClosing, pfKilling], ∀ w : Word,
    test (w ||| m) pfInbelts = test w pfInbelts := by
  intro m hm w
  have hmask : test m pfInbelts = false := by
    simp only [List.mem_cons, List.not_mem_nil, or_false] at hm
    rcases hm with rfl | rfl | rfl <;> rfl
  rw [test_or, hmask, Bool.or_false]

lemma test_inbelts_and_not : ∀ m ∈ [pfZombied, pfPipeClosing, pfKilling], ∀ w : Word,
    test (w &&& ~~~m) pfInbelts = test w pfInbelts := by
  intro m hm w
  have hmask : ~~~m &&& pfInbelts = pfInbelts := by
    simp only [List.mem_cons, List.not_mem_nil, or_false] at hm
    rcases hm with rfl | rfl | rfl <;> rfl
  rw [test_and, hmask]

lemma test_inbelts_cleared (w : Word) : test (w &&& ~~~pfInbelts) pfInbelts = false := by
  have hmask : ~~~pfInbelts &&& pfInbelts = 0#32 := rfl
  rw [test_and, hmask, test_eq_false, BitVec.and_zero]

lemma inBelts_setFlags (s : Sys ι) (p q : ι) (w : Word) :
    (s.setFlags p w).inBelts q = if q = p then test w pfInbelts else s.inBelts q := by
  unfold Sys.inBelts Sys.setFlags
  dsimp only
  split_ifs with hq
  · rw [hq, Function.update_self]
  · rw [Function.update_of_ne hq]

/-- A write of another flag keeps `PF_INBELTS` when the word that was read has it right. -/
lemma inBelts_setFlags_of_test {s : Sys ι} {p : ι} {w : Word}
    (h : test w pfInbelts = s.inBelts p) (q : ι) : (s.setFlags p w).inBelts q = s.inBelts q := by
  rw [inBelts_setFlags]
  split_ifs with hq
  · rw [hq, h]
  · rfl

/-! ## The flag and the list -/

/-- The process is not yet on the belts, or not any more. -/
def Place.outside : Place → Bool
  | .created | .unstarted | .started | .waited | .freed => true
  | _ => false

/-- The word that is going to be written. -/
def Place.pending : Place → Option Word
  | .setting w => some w
  | .clearing w => some w
  | _ => none

def Overview.pending : Overview ι → Option (ι × Word)
  | .writing w (p :: _) => some (p, w)
  | _ => none

/-- The flag is set exactly when there is one node, and no write that is under way changes it. -/
structure Tied (s : Sys ι) : Prop where
  count : ∀ p, s.belts.count p = if s.inBelts p then 1 else 0
  outside : ∀ p, (s.place p).outside → s.inBelts p = false
  thread : ∀ p, ∀ w ∈ (s.place p).pending, test w pfInbelts = s.inBelts p
  overview : ∀ r ∈ s.overview.pending, test r.2 pfInbelts = s.inBelts r.1

lemma tied_initial : Tied (initial : Sys ι) where
  count := by simp [initial, Sys.inBelts]
  outside := by simp [initial, Sys.inBelts]
  thread := by simp [initial, Place.pending]
  overview := by simp [initial, Overview.pending]

namespace Tied

variable {s s' : Sys ι} {p : ι}

/-- A step that leaves the belts and the flag alone. -/
lemma move (h : Tied s) {pl : Place} (hbelts : s'.belts = s.belts)
    (hplace : s'.place = Function.update s.place p pl)
    (hflag : ∀ q, s'.inBelts q = s.inBelts q) (hout : pl.outside → s.inBelts p = false)
    (hpend : ∀ w ∈ pl.pending, test w pfInbelts = s.inBelts p)
    (hover : ∀ r ∈ s'.overview.pending, test r.2 pfInbelts = s.inBelts r.1) : Tied s' := by
  refine ⟨fun q => ?_, fun q => ?_, fun q => ?_, fun r hr => ?_⟩
  · rw [hbelts, hflag]
    exact h.count q
  · rw [hplace, hflag]
    by_cases hq : q = p
    · subst hq
      rw [Function.update_self]
      exact hout
    · rw [Function.update_of_ne hq]
      exact h.outside q
  · rw [hplace, hflag]
    by_cases hq : q = p
    · subst hq
      rw [Function.update_self]
      exact hpend
    · rw [Function.update_of_ne hq]
      exact h.thread q
  · rw [hflag]
    exact hover r hr

lemma moveTo (h : Tied s) {pl : Place} (hout : pl.outside → s.inBelts p = false)
    (hpend : ∀ w ∈ pl.pending, test w pfInbelts = s.inBelts p) : Tied (s.moveTo p pl) :=
  h.move rfl rfl (fun _ => rfl) hout hpend h.overview

lemma within (h : Tied s) {pl : Place} (hout : pl.outside = false) (hpend : pl.pending = none) :
    Tied (s.moveTo p pl) :=
  h.moveTo (by simp [hout]) (by simp [hpend])

/-- A process that is not on the belts goes on. -/
lemma apart (h : Tied s) {pl : Place} (hplace : (s.place p).outside) (hpend : pl.pending = none) :
    Tied (s.moveTo p pl) :=
  h.moveTo (fun _ => h.outside p hplace) (by simp [hpend])

/-- The executing thread reads the flags that it is going to write back. -/
lemma read (h : Tied s) {pl : Place} (hout : pl.outside = false)
    (hpend : pl.pending = some (s.flags p)) : Tied (s.moveTo p pl) :=
  h.moveTo (by simp [hout]) (by simp [hpend, Sys.inBelts])

/-- The executing thread writes back what it has read, with another flag changed. -/
lemma write (h : Tied s) {w w' : Word} (hread : (s.place p).pending = some w)
    (hword : test w' pfInbelts = test w pfInbelts) {pl : Place} (hout : pl.outside = false)
    (hpend : pl.pending = none) : Tied ((s.setFlags p w').moveTo p pl) :=
  h.move rfl rfl (inBelts_setFlags_of_test (hword.trans (h.thread p w hread)))
    (by simp [hout]) (by simp [hpend]) h.overview

/-- `run_belts_overview` goes on without writing. -/
lemma review (h : Tied s) {o : Overview ι}
    (ho : ∀ r ∈ o.pending, test r.2 pfInbelts = s.inBelts r.1) : Tied { s with overview := o } :=
  ⟨h.count, h.outside, h.thread, ho⟩

/-- `run_belts_overview` writes back what it has read, with another flag changed. -/
lemma store (h : Tied s) {w : Word} {cur : List ι} (hread : s.overview = .writing w (p :: cur))
    (m : Mark) (set : Bool) :
    Tied { s.setFlags p (if set then w ||| m.mask else w &&& ~~~m.mask) with
      overview := .review (p :: cur) } := by
  have hw : test w pfInbelts = s.inBelts p := h.overview (p, w) (by rw [hread]; rfl)
  have hmask : m.mask ∈ [pfZombied, pfPipeClosing, pfKilling] := by
    cases m <;> simp [Mark.mask]
  have hword : test (if set then w ||| m.mask else w &&& ~~~m.mask) pfInbelts = s.inBelts p := by
    split
    · exact (test_inbelts_or _ hmask w).trans hw
    · exact (test_inbelts_and_not _ hmask w).trans hw
  exact h.move (p := p) rfl (Function.update_eq_self p s.place).symm
    (inBelts_setFlags_of_test hword) (h.outside p) (h.thread p) (by simp [Overview.pending])

/-- A step under the mutex that puts one process on the belts or takes it off. -/
lemma change (h : Tied s) {pl : Place} {b : Bool} (hidle : s'.overview = .idle)
    (hplace : s'.place = Function.update s.place p pl)
    (hflag : ∀ q, s'.inBelts q = if q = p then b else s.inBelts q)
    (hcount : ∀ q, s'.belts.count q = if q = p then (if b then 1 else 0) else s.belts.count q)
    (hout : pl.outside → b = false) (hpend : pl.pending = none) : Tied s' := by
  refine ⟨fun q => ?_, fun q => ?_, fun q => ?_, ?_⟩
  · rw [hflag, hcount]
    split_ifs with hq
    · rfl
    · rfl
    · rw [h.count q, if_pos ‹_›]
    · rw [h.count q, if_neg ‹_›]
  · rw [hplace, hflag]
    by_cases hq : q = p
    · subst hq
      rw [Function.update_self, if_pos rfl]
      exact hout
    · rw [Function.update_of_ne hq, if_neg hq]
      exact h.outside q
  · rw [hplace, hflag]
    by_cases hq : q = p
    · subst hq
      rw [Function.update_self, hpend]
      simp
    · rw [Function.update_of_ne hq, if_neg hq]
      exact h.thread q
  · rw [hidle]
    simp [Overview.pending]

/-- `belts_append` finds the flag down. -/
lemma beltsAppend (h : Tied s) (hplace : (s.place p).outside) (hidle : s.overview = .idle) :
    Tied ((s.beltsAppend p).moveTo p .running) := by
  have hnone : s.belts.count p = 0 := by rw [h.count p, h.outside p hplace, if_neg (by simp)]
  refine h.change (b := true) hidle rfl (fun q => ?_) (fun q => ?_) (by simp [Place.outside]) rfl
  · have hset : test pfInbelts pfInbelts = true := rfl
    refine (inBelts_setFlags s p q (s.flags p ||| pfInbelts)).trans ?_
    rw [test_or, hset, Bool.or_true]
  · dsimp only [Sys.beltsAppend, Sys.moveTo]
    rw [List.count_append]
    by_cases hq : q = p
    · subst hq
      rw [hnone, List.count_singleton_self, if_pos rfl, if_pos rfl]
    · have hone : [p].count q = 0 := List.count_eq_zero.2 (by simpa using hq)
      rw [hone, Nat.add_zero, if_neg hq]

omit [DecidableEq ι] in
/-- Only the node of the process itself has its unique number. -/
lemma find?_unique {unique : ι → ℤ} (hinj : Function.Injective unique) (hp : p ∈ s.belts) :
    (s.belts.find? fun q => unique q = unique p) = some p := by
  have hsome : (s.belts.find? fun q => unique q = unique p).isSome := by
    rw [List.find?_isSome]
    exact ⟨p, hp, by simp⟩
  obtain ⟨q, hq⟩ := Option.isSome_iff_exists.1 hsome
  have huniq : unique q = unique p := by simpa using List.find?_some hq
  rw [hq, hinj huniq]

lemma beltsRemove_of_inBelts (h : Tied s) {unique : ι → ℤ} (hinj : Function.Injective unique)
    (hin : s.inBelts p) : s.beltsRemove unique p =
      { s.setFlags p (s.flags p &&& ~~~pfInbelts) with belts := s.belts.erase p } := by
  have hp : p ∈ s.belts := List.count_pos_iff.1 (by simp [h.count p, hin])
  rw [Sys.beltsRemove, if_pos hin, find?_unique hinj hp]

/-- After `belts_remove` the process is off the belts. -/
lemma beltsRemove (h : Tied s) {unique : ι → ℤ} (hinj : Function.Injective unique)
    (hidle : s.overview = .idle) {pl : Place} (hpl : pl.pending = none) :
    Tied ((s.beltsRemove unique p).moveTo p pl) := by
  cases hin : s.inBelts p with
  | false =>
    have hsame : s.beltsRemove unique p = s := if_neg (by simp [hin])
    rw [hsame]
    exact h.moveTo (fun _ => hin) (by simp [hpl])
  | true =>
    rw [h.beltsRemove_of_inBelts hinj hin]
    refine h.change (b := false) hidle rfl (fun q => ?_) (fun q => ?_) (fun _ => rfl) hpl
    · refine (inBelts_setFlags s p q (s.flags p &&& ~~~pfInbelts)).trans ?_
      rw [test_inbelts_cleared]
    · dsimp only [Sys.moveTo]
      by_cases hq : q = p
      · subst hq
        rw [List.count_erase_self, h.count q, hin, if_pos rfl, if_pos rfl]
        rfl
      · rw [List.count_erase_of_ne hq, if_neg hq]

end Tied

lemma tied_next {unique : ι → ℤ} (hinj : Function.Injective unique) (s : Sys ι) (e : Event ι)
    (s' : Sys ι) (hs : Tied s) (h : StepOf (next unique) s e s') : Tied s' := by
  unfold StepOf next at h
  cases e with
  | execute p threadCreated =>
    obtain ⟨hplace, h⟩ := Option.ite_none_right_eq_some.1 h
    split_ifs at h
    · obtain rfl := Option.some.inj h
      exact hs.apart (by rw [hplace]; rfl) rfl
    · obtain rfl := Option.some.inj h
      exact hs.apart (by rw [hplace]; rfl) rfl
  | append p =>
    obtain ⟨⟨hplace, hidle⟩, ⟨rfl⟩⟩ := Option.ite_none_right_eq_some.1 h
    exact hs.beltsAppend (by rw [hplace]; rfl) hidle
  | exit p e =>
    obtain ⟨hplace, ⟨rfl⟩⟩ := Option.ite_none_right_eq_some.1 h
    exact hs.within rfl rfl
  | readFlags p =>
    dsimp only at h
    split at h
    · split_ifs at h
      · obtain rfl := Option.some.inj h
        exact hs.within rfl rfl
      · obtain rfl := Option.some.inj h
        exact hs.read rfl rfl
    · obtain rfl := Option.some.inj h
      exact hs.read rfl rfl
    · cases h
  | writeFlags p =>
    dsimp only at h
    split at h
    · next w hplace =>
      obtain rfl := Option.some.inj h
      have hword := test_inbelts_or pfPipeClosing (by simp) w
      exact hs.write (by rw [hplace]; rfl) hword rfl rfl
    · next w hplace =>
      obtain rfl := Option.some.inj h
      have hword := test_inbelts_and_not pfPipeClosing (by simp) w
      exact hs.write (by rw [hplace]; rfl) hword rfl rfl
    · cases h
  | remove p =>
    obtain ⟨⟨-, hidle⟩, ⟨rfl⟩⟩ := Option.ite_none_right_eq_some.1 h
    exact hs.beltsRemove hinj hidle rfl
  | join p =>
    dsimp only at h
    split at h
    · next hplace =>
      obtain rfl := Option.some.inj h
      exact hs.apart (by rw [hplace]; rfl) rfl
    · obtain rfl := Option.some.inj h
      exact hs.within rfl rfl
    · cases h
  | testFlag p =>
    obtain ⟨-, h⟩ := Option.ite_none_right_eq_some.1 h
    split_ifs at h with hin
    · obtain rfl := Option.some.inj h
      exact hs.within rfl rfl
    · obtain rfl := Option.some.inj h
      exact hs.moveTo (fun _ => by simpa using hin) (by simp [Place.pending])
  | leave p =>
    obtain ⟨⟨-, hidle⟩, ⟨rfl⟩⟩ := Option.ite_none_right_eq_some.1 h
    exact hs.beltsRemove hinj hidle rfl
  | free p =>
    obtain ⟨hplace, ⟨rfl⟩⟩ := Option.ite_none_right_eq_some.1 h
    exact hs.apart (by rw [hplace]; rfl) rfl
  | lock =>
    obtain ⟨-, ⟨rfl⟩⟩ := Option.ite_none_right_eq_some.1 h
    exact hs.review (by simp [Overview.pending])
  | load =>
    dsimp only at h
    split at h
    · obtain rfl := Option.some.inj h
      exact hs.review (by simp [Overview.pending, Sys.inBelts])
    · cases h
  | store m set =>
    dsimp only at h
    split at h
    · next w p cur hover =>
      obtain rfl := Option.some.inj h
      exact hs.store hover m set
    · cases h
  | step =>
    dsimp only at h
    split at h
    · obtain rfl := Option.some.inj h
      exact hs.review (by simp [Overview.pending])
    · cases h
  | unlock =>
    dsimp only at h
    split at h
    · obtain rfl := Option.some.inj h
      exact hs.review (by simp [Overview.pending])
    · cases h

/-- In every interleaving of any number of processes with different unique numbers, the flag of a
process is set exactly when the belts have one node for it, and a process that is freed has
none. -/
theorem freed_not_in_belts {unique : ι → ℤ} (hinj : Function.Injective unique)
    {es : List (Event ι)} {s : Sys ι} (hr : Run (StepOf (next unique)) initial es s) :
    (∀ p, s.inBelts p ↔ s.belts.count p = 1) ∧
      ∀ p s', next unique s (.free p) = some s' → p ∉ s.belts := by
  have hs : Tied s := hr.invariant (tied_next hinj) tied_initial
  refine ⟨fun p => ?_, fun p s' h => ?_⟩
  · rw [hs.count p]
    cases s.inBelts p <;> simp
  · obtain ⟨hplace, -⟩ := Option.ite_none_right_eq_some.1 h
    have hout := hs.outside p (by rw [hplace]; rfl)
    refine List.count_eq_zero.1 ?_
    rw [hs.count p, hout, if_neg Bool.false_ne_true]

/-- Process 0 ends normally while process 1 is left on the belts by its thread; the belts are
reviewed in between. -/
def twoProcesses : List (Event ℕ) :=
  [.execute 0 true, .execute 1 true, .append 0, .append 1, .lock, .load, .readFlags 0,
    .store .zombied true, .writeFlags 0, .step, .step, .unlock, .exit 1 .notFound, .readFlags 0,
    .writeFlags 0, .remove 0, .join 1, .testFlag 1, .leave 1, .join 0, .testFlag 0]

lemma twoProcesses_isSome :
    (twoProcesses.foldlM (next Int.ofNat) initial).isSome := by
  decide +kernel

theorem freed_not_in_belts_twoProcesses :
    1 ∉ ((twoProcesses.foldlM (next Int.ofNat) initial).get twoProcesses_isSome).belts := by
  have hinj : Function.Injective Int.ofNat := fun _ _ h => Int.ofNat.inj h
  exact (freed_not_in_belts hinj (Run.get_foldlM _ _ twoProcesses_isSome)).2 1 _ rfl

end WebTester.Librun.RunBelts
