import Mathlib.Algebra.BigOperators.Group.List.Basic
import Mathlib.Algebra.Ring.Int.Defs
import Mathlib.Data.List.Induction
import Mathlib.Data.List.TakeWhile
import WebTester.TestingLoop

/-!
# The scoring law

Every test has an outcome. The cycle by tests records the outcomes of the tests it
executes, in order; the results, the errors and the points are read off them.
-/
namespace WebTester.Informatics
open CString Librun

/-! ## Outcomes -/

/-- How an iteration ends. -/
inductive Outcome
  | ok
  | error (k : Kind)
  | crash
  | interrupted
  deriving DecidableEq, Repr

/-- The text of a test in the results. -/
def Outcome.code : Outcome → CStr
  | .ok => "OK".toList
  | .error k => k.code
  | .crash | .interrupted => []

/-- Outcomes after which no further test is run. -/
def Outcome.ends (acm : Bool) : Outcome → Bool
  | .ok => false
  | .error _ => acm
  | .crash | .interrupted => true

/-- The outcome that the checker decides. -/
def Test.checkerOutcome (t : Test) : Outcome :=
  if t.checker.execError ∨ t.checker.terminated ∨ t.checker.memorylimit ∨ t.checker.timelimit then
    .crash
  else if t.checker.exitStatus = 0 then .ok
  else if t.checker.exitStatus = 1 then .error .wa
  else if t.checker.exitStatus = 2 then .error .pe
  else .crash

/-- The outcome of a test under the answers of the activity checks made on it. -/
def outcome (t : Test × Checks) : Outcome :=
  if t.2.started = false then .interrupted
  else if t.1.copied = false then .crash
  else if t.2.executed = false then .interrupted
  else match t.1.solution.solutionBranch with
    | .crash => .crash
    | .ml => .error .ml
    | .tl => .error .tl
    | .re => .error .re
    | .answer =>
      if t.1.output = false then .error .pe
      else if t.2.checked = false then .interrupted
      else t.1.checkerOutcome

/-- The tests that are begun: up to and including the first that ends the cycle. -/
def executed (acm : Bool) (ts : List (Test × Checks)) : List (Test × Checks) :=
  ts.takeWhile (fun t => !(outcome t).ends acm) ++
    (ts.dropWhile fun t => !(outcome t).ends acm).take 1

namespace Loop

variable (acm : Bool)

/-- What a test does to the accumulators. -/
def record (l : Loop) (t : Test × Checks) : Loop :=
  match outcome t with
  | .ok => l.accept t.1.points
  | .error k => l.note k
  | .crash => l.crash
  | .interrupted => l

/-- How an iteration goes on after a test has been recorded. -/
def proceed (l : Loop) (o : Outcome) : Except Loop Loop :=
  if o.ends acm then .error l else .ok l

lemma overviewChecker_eq (t : Test) (l : Loop) :
    l.overviewChecker acm t = match t.checkerOutcome with
      | .ok => .ok (l.accept t.points)
      | .error k => l.err acm k
      | .crash | .interrupted => .error l.crash := by
  unfold overviewChecker Test.checkerOutcome
  simp only [Bool.or_eq_true]
  split_ifs <;> simp_all <;> rfl

lemma checkerOutcome_ne_interrupted (t : Test) : t.checkerOutcome ≠ .interrupted := by
  unfold Test.checkerOutcome
  split_ifs <;> simp

/-- An iteration records the test and leaves the cycle when the outcome says so. -/
theorem iteration_eq (l : Loop) (t : Test × Checks) :
    l.iteration acm t.1 t.2 = proceed acm (l.record t) (outcome t) := by
  obtain ⟨t, c⟩ := t
  unfold iteration record outcome
  dsimp only
  cases hs : c.started with
  | false => rfl
  | true =>
    cases hc : t.copied with
    | false => simp [checkActive, copyTest, hc]; rfl
    | true =>
      cases he : c.executed with
      | false => simp [checkActive, copyTest, hc]; rfl
      | true =>
        simp only [checkActive, copyTest, hc, overviewSolution, if_true, pure_bind]
        cases hb : t.solution.solutionBranch with
        | crash => rfl
        | ml => cases acm <;> rfl
        | tl => cases acm <;> rfl
        | re => cases acm <;> rfl
        | answer =>
          cases ho : t.output with
          | false => cases acm <;> rfl
          | true =>
            cases hk : c.checked with
            | false => rfl
            | true =>
              show l.overviewChecker acm t = _
              rw [overviewChecker_eq]
              cases hx : t.checkerOutcome with
              | interrupted => exact absurd hx (checkerOutcome_ne_interrupted t)
              | ok => rfl
              | error k => rfl
              | crash => rfl

/-- The cycle records the executed tests one after another. -/
theorem cycle_eq_foldl (ts : List (Test × Checks)) (l : Loop) :
    l.cycle acm ts = (executed acm ts).foldl record l := by
  induction ts generalizing l with
  | nil => rfl
  | cons t ts ih =>
    unfold cycle executed
    rw [iteration_eq]
    cases he : (outcome t).ends acm with
    | true => simp [proceed, he]
    | false =>
      simp only [proceed, he, List.takeWhile_cons, List.dropWhile_cons]
      exact ih _

end Loop

/-! ## The scoring law -/

lemma intercalate_cons_eq_append (delim a : CStr) (items : List CStr) :
    ∃ r, delim.intercalate (a :: items) = a ++ r := by
  cases items with
  | nil => exact ⟨[], by simp⟩
  | cons b items => exact ⟨delim ++ delim.intercalate (b :: items), by simp⟩

/-- Items pushed one after another stand in order with one delimiter between. -/
lemma pushString_intercalate (item delim : CStr) {items : List CStr} (h : ∀ x ∈ items, x ≠ []) :
    pushString item delim (delim.intercalate items) = delim.intercalate (items ++ [item]) := by
  induction items with
  | nil => simp [pushString]
  | cons a items ih =>
    have ha : a ≠ [] := h a (by simp)
    cases items with
    | nil => simp [pushString, ha]
    | cons b items =>
      have hb : delim.intercalate (b :: items) ≠ [] := by
        obtain ⟨r, hr⟩ := intercalate_cons_eq_append delim b items
        rw [hr]
        simp [h b (by simp)]
      have hi := ih fun x hx => h x (by simp [hx])
      simp only [List.cons_append, List.intercalate_cons_cons] at hi ⊢
      rw [← hi]
      simp [pushString, ha, hb]

lemma Kind.code_ne_nil (k : Kind) : k.code ≠ [] := by
  cases k <;> simp [code]

lemma Outcome.code_ne_nil {o : Outcome} (hc : o ≠ .crash) (hi : o ≠ .interrupted) :
    o.code ≠ [] := by
  cases o with
  | ok => simp [code]
  | error k => exact k.code_ne_nil
  | crash => exact absurd rfl hc
  | interrupted => exact absurd rfl hi

/-- The kinds of error that occurred, in the order in which they are reported. -/
def occurred (ts : List (Test × Checks)) : List Kind :=
  kinds.filter fun k => ts.any fun t => outcome t = .error k

/-- What the accumulators hold after tests that neither crashed nor were interrupted. -/
structure Recorded (ts : List (Test × Checks)) (l : Loop) : Prop where
  points : l.points = ((ts.filter fun t => outcome t = .ok).map fun t => t.1.points).sum
  errors : l.errors = []
  testsRes : l.testsRes = List.intercalate " ".toList (ts.map fun t => (outcome t).code)
  flag : ∀ k, l.flag k = ts.any fun t => outcome t = .error k
  cr : l.cr = false

lemma recorded_initial : Recorded [] Loop.initial where
  points := rfl
  errors := rfl
  testsRes := rfl
  flag _ := rfl
  cr := rfl

/-- One more test is recorded. -/
theorem Recorded.step {ts : List (Test × Checks)} {l : Loop} {t : Test × Checks}
    (h : Recorded ts l) (hts : ∀ t ∈ ts, outcome t ≠ .crash ∧ outcome t ≠ .interrupted)
    (hc : outcome t ≠ .crash) (hi : outcome t ≠ .interrupted) :
    Recorded (ts ++ [t]) (l.record t) := by
  have hne : ∀ x ∈ ts.map (fun t => (outcome t).code), x ≠ [] := by
    intro x hx
    obtain ⟨u, hu, rfl⟩ := List.mem_map.1 hx
    exact Outcome.code_ne_nil (hts u hu).1 (hts u hu).2
  have hres := pushString_intercalate (outcome t).code " ".toList hne
  unfold Loop.record
  cases ho : outcome t with
  | crash => exact absurd ho hc
  | interrupted => exact absurd ho hi
  | ok =>
    rw [ho] at hres
    constructor
    · simp [Loop.accept, h.points, ho]
    · exact h.errors
    · simpa [Loop.accept, h.testsRes, ho, Outcome.code] using hres
    · intro k
      simp [Loop.accept, h.flag k, ho]
    · exact h.cr
  | error k =>
    rw [ho] at hres
    constructor
    · simp [Loop.note, h.points, ho]
    · exact h.errors
    · simpa [Loop.note, h.testsRes, ho, Outcome.code] using hres
    · intro k'
      by_cases hk : k' = k
      · subst hk
        simp [Loop.note, ho]
      · simp [Loop.note, h.flag k', ho, hk, Ne.symm hk]
    · exact h.cr

theorem recorded_foldl {ts : List (Test × Checks)}
    (hts : ∀ t ∈ ts, outcome t ≠ .crash ∧ outcome t ≠ .interrupted) :
    Recorded ts (ts.foldl Loop.record Loop.initial) := by
  induction ts using List.reverseRecOn with
  | nil => exact recorded_initial
  | append_singleton ts t ih =>
    have hts' : ∀ u ∈ ts, outcome u ≠ .crash ∧ outcome u ≠ .interrupted :=
      fun u hu => hts u (by simp [hu])
    rw [List.foldl_append]
    exact (ih hts').step hts' (hts t (by simp)).1 (hts t (by simp)).2

/-- A test that ends the cycle is the last one executed. -/
theorem executed_eq_concat {acm : Bool} {ts : List (Test × Checks)} {t : Test × Checks}
    (ht : t ∈ executed acm ts) (he : (outcome t).ends acm = true) :
    ∃ us, executed acm ts = us ++ [t] := by
  unfold executed at ht ⊢
  rcases List.mem_append.1 ht with ht | ht
  · have hp := List.mem_takeWhile_imp ht
    simp [he] at hp
  · refine ⟨ts.takeWhile fun t => !(outcome t).ends acm, ?_⟩
    cases hd : ts.dropWhile fun t => !(outcome t).ends acm with
    | nil => simp [hd] at ht
    | cons u us =>
      obtain rfl : t = u := by simpa [hd] using ht
      simp

/-- The flags are reported in the fixed order. -/
lemma foldl_pushString (flag : Kind → Bool) (ks : List Kind) (items : List CStr)
    (h : ∀ x ∈ items, x ≠ []) :
    ks.foldl (fun errs k => if flag k then pushString k.code " ".toList errs else errs)
        (List.intercalate " ".toList items) =
      List.intercalate " ".toList (items ++ (ks.filter flag).map Kind.code) := by
  induction ks generalizing items with
  | nil => simp
  | cons k ks ih =>
    cases hk : flag k with
    | false => simpa [hk] using ih items h
    | true =>
      have hne : ∀ x ∈ items ++ [k.code], x ≠ [] := by
        intro x hx
        rcases List.mem_append.1 hx with hx | hx
        · exact h x hx
        · rw [List.mem_singleton.1 hx]
          exact k.code_ne_nil
      have hi := ih (items ++ [k.code]) hne
      rw [List.foldl_cons, if_pos hk, pushString_intercalate _ _ h, hi]
      simp [hk]

/-- The law of the points, errors and results of the tests `ts`. -/
structure Scored (bonus : ℤ) (ts : List (Test × Checks)) (l : Loop) : Prop where
  testsRes : l.testsRes = List.intercalate " ".toList (ts.map fun t => (outcome t).code)
  errors : l.errors = if occurred ts = [] then "OK".toList
    else List.intercalate " ".toList ((occurred ts).map Kind.code)
  points : l.points = ((ts.filter fun t => outcome t = .ok).map fun t => t.1.points).sum +
    if l.errors = "OK".toList then bonus else 0

lemma Recorded.pushErrors_eq {ts : List (Test × Checks)} {l : Loop} (h : Recorded ts l) :
    l.pushErrors = List.intercalate " ".toList ((occurred ts).map Kind.code) := by
  unfold Loop.pushErrors
  have hf := foldl_pushString l.flag kinds [] (by simp)
  rw [List.intercalate_nil, ← h.errors] at hf
  rw [hf, occurred, List.nil_append]
  simp only [← h.flag]

theorem Recorded.scored {ts : List (Test × Checks)} {l : Loop} (bonus : ℤ) (h : Recorded ts l) :
    Scored bonus ts (l.done bonus true) := by
  have hpush := h.pushErrors_eq
  unfold Loop.done
  simp only [h.cr, hpush]
  cases ho : occurred ts with
  | nil =>
    constructor
    · exact h.testsRes
    · simp [ho]
    · simp [h.points]
  | cons k ks =>
    obtain ⟨r, hr⟩ := intercalate_cons_eq_append " ".toList k.code (ks.map Kind.code)
    have hok : k.code ++ r ≠ "OK".toList := by cases k <;> simp [Kind.code]
    rw [List.map_cons, hr, if_neg (by simp), if_neg (by simp [k.code_ne_nil])]
    constructor
    · exact h.testsRes
    · simp only [ho, List.map_cons, hr, reduceCtorEq, if_false]
    · simp only [h.points, if_neg hok, add_zero]

/-- Under either rule, tests that go through are executed as far as the rule says. -/
theorem executed_eq {acm : Bool} {ts : List (Test × Checks)}
    (hts : ∀ t ∈ executed acm ts, outcome t ≠ .crash ∧ outcome t ≠ .interrupted) :
    executed acm ts = if acm then
        ts.takeWhile (fun t => outcome t = .ok) ++ (ts.dropWhile fun t => outcome t = .ok).take 1
      else ts := by
  cases acm with
  | true =>
    have hp : (fun t => !(outcome t).ends true) = fun t => decide (outcome t = .ok) := by
      funext t
      cases outcome t <;> simp [Outcome.ends]
    simp only [executed, hp, if_true]
  | false =>
    have hd : (ts.dropWhile fun t => !(outcome t).ends false) = [] := by
      cases hd : ts.dropWhile fun t => !(outcome t).ends false with
      | nil => rfl
      | cons u us =>
        have hu : u ∈ executed false ts := by simp [executed, hd]
        have hne : (ts.dropWhile fun t => !(outcome t).ends false) ≠ [] := by simp [hd]
        have he := List.head_dropWhile_not _ hne
        simp only [hd, List.head_cons] at he
        have := hts u hu
        cases ho : outcome u <;> simp_all [Outcome.ends]
    have htd := List.takeWhile_append_dropWhile (p := fun t => !(outcome t).ends false) (l := ts)
    rw [hd, List.append_nil] at htd
    simp [executed, hd, htd]

/-- A crash leaves no points and the error `CR`, whatever the last check answers. -/
lemma done_crash (bonus : ℤ) (active : Bool) (l : Loop) : l.crash.done bonus active = l.crash := by
  simp [Loop.done, Loop.crash]

/-- The scoring law. The executed tests are all tests, or, under ACM rules, those up to and
including the first that is not `OK`. -/
structure Law (acm : Bool) (bonus : ℤ) (ts : List (Test × Checks)) (active : Bool) (l : Loop) :
    Prop where
  scored : (∀ t ∈ executed acm ts, outcome t ≠ .crash ∧ outcome t ≠ .interrupted) → active = true →
    executed acm ts = (if acm then
        ts.takeWhile (fun t => outcome t = .ok) ++ (ts.dropWhile fun t => outcome t = .ok).take 1
      else ts) ∧
    Scored bonus (executed acm ts) l
  crashed : (∃ t ∈ executed acm ts, outcome t = .crash) → l.points = 0 ∧ l.errors = "CR".toList

/-- The law of the cycle by tests. -/
theorem cycle_law (acm : Bool) (bonus : ℤ) (ts : List (Test × Checks)) (active : Bool) :
    Law acm bonus ts active ((Loop.initial.cycle acm ts).done bonus active) := by
  rw [Loop.cycle_eq_foldl]
  constructor
  · rintro hts rfl
    exact ⟨executed_eq hts, (recorded_foldl hts).scored bonus⟩
  · rintro ⟨t, ht, hc⟩
    obtain ⟨us, hus⟩ := executed_eq_concat ht (by rw [hc]; rfl)
    have hlast : (executed acm ts).foldl Loop.record Loop.initial =
        (us.foldl Loop.record Loop.initial).crash := by
      rw [hus, List.foldl_append]
      simp [Loop.record, hc]
    rw [hlast, done_crash]
    exact ⟨rfl, rfl⟩

end WebTester.Informatics
