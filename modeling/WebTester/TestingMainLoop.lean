import Mathlib.Data.List.Infix
import WebTester.TestsTable

/-!
# The main loop on a machine

`testing_main_loop` fills its table from the parameter `TESTS`, adds up the points as an `int` and
adds the bonus at the end. There is no result where a buffer or the table is too small, or where a
sum leaves `int`.
-/
namespace WebTester.Informatics
open CString Strlib

/-- A value of `int`. -/
def IsInt (x : ℤ) : Prop := -2 ^ 31 ≤ x ∧ x < 2 ^ 31

instance (x : ℤ) : Decidable (IsInt x) := inferInstanceAs (Decidable (_ ∧ _))

lemma isInt_zero : IsInt 0 := by decide

namespace Loop

/-- The cycle by tests; `*__points` is an `int`. -/
def cycleInt (acm : Bool) : List (Test × Checks) → Loop → Option Loop
  | [], l => some l
  | (t, c) :: ts, l =>
    match l.iteration acm t c with
    | .ok l => if IsInt l.points then cycleInt acm ts l else none
    | .error l => some l

end Loop

/-- The tests of the table, with what the cycle meets on each of them. -/
def testsOf (points : List ℤ) (met : ℕ → Test × Checks) : List (Test × Checks) :=
  points.zipIdx.map fun p => ({ (met p.2).1 with points := p.1 }, (met p.2).2)

/-- `testing_main_loop`, as `testing_thread` calls it, with the parameters `TESTS` and `BONUS`. -/
def testingMainLoop (junk acm : Bool) (testsPchar bonusPchar : CStr) (met : ℕ → Test × Checks)
    (active : Bool) : Option Loop := do
  let points ← testsTable junk testsPchar
  let l ← Loop.initial.cycleInt acm (testsOf points met)
  let l := l.done (atoi bonusPchar) active
  if IsInt l.points then some l else none

/-! ## The sums -/

/-- The points of the tests that are `OK`. -/
def earned (ts : List (Test × Checks)) : ℤ :=
  ((ts.filter fun t => outcome t = .ok).map fun t => t.1.points).sum

/-- Every sum on the way is an `int`, and so is the last one with the bonus where it is added. -/
structure PointsFit (acm : Bool) (bonus : ℤ) (ts : List (Test × Checks)) (active : Bool) :
    Prop where
  sums : ∀ us, us <+: executed acm ts → IsInt (earned us)
  bonus : active = true → (∀ t ∈ executed acm ts, outcome t ≠ .crash) →
    occurred (executed acm ts) = [] → IsInt (earned (executed acm ts) + bonus)

namespace Loop

variable {acm : Bool}

/-- An outcome that ends the cycle leaves the points or clears them. -/
lemma isInt_record {l : Loop} {t : Test × Checks} (hl : IsInt l.points)
    (ht : (outcome t).ends acm = true) : IsInt (l.record t).points := by
  unfold record
  cases ho : outcome t with
  | ok =>
    rw [ho] at ht
    cases ht
  | error k => exact hl
  | crash => exact isInt_zero
  | interrupted => exact hl

/-- The cycle goes through if and only if every sum on the way is an `int`. -/
lemma cycleInt_eq (ts : List (Test × Checks)) (l : Loop) (hl : IsInt l.points) :
    l.cycleInt acm ts = if ∀ us ∈ (executed acm ts).inits, IsInt (us.foldl record l).points
      then some (l.cycle acm ts) else none := by
  induction ts generalizing l with
  | nil =>
    have hinits : ∀ us ∈ (executed acm []).inits, IsInt (us.foldl record l).points := by
      intro us hus
      obtain rfl : us = [] := by simpa [executed] using hus
      exact hl
    rw [if_pos hinits]
    rfl
  | cons t ts ih =>
    rw [cycleInt, cycle, iteration_eq, proceed]
    cases he : (outcome t).ends acm with
    | true =>
      have hone : executed acm (t :: ts) = [t] := by simp [executed, he]
      have hinits : ∀ us ∈ (executed acm (t :: ts)).inits, IsInt (us.foldl record l).points := by
        intro us hus
        rw [hone] at hus
        obtain rfl | rfl : us = [] ∨ us = [t] := by simpa using hus
        · exact hl
        · exact isInt_record hl he
      rw [if_pos hinits]
      rfl
    | false =>
      have hcons : executed acm (t :: ts) = t :: executed acm ts := by simp [executed, he]
      have hinits : (∀ us ∈ (executed acm (t :: ts)).inits, IsInt (us.foldl record l).points) ↔
          ∀ us ∈ (executed acm ts).inits, IsInt (us.foldl record (l.record t)).points := by
        rw [hcons, List.inits_cons, List.forall_mem_cons]
        simp [hl]
      simp only [Bool.false_eq_true, if_false]
      rw [if_congr hinits rfl rfl]
      by_cases hrecord : IsInt (l.record t).points
      · rw [if_pos hrecord]
        exact ih _ hrecord
      · rw [if_neg hrecord, if_neg]
        intro hall
        exact hrecord (hall [] (by simp))

/-- A test that was interrupted changes nothing. -/
lemma foldl_record_filter (ts : List (Test × Checks)) (l : Loop) :
    ts.foldl record l = (ts.filter fun t => outcome t ≠ .interrupted).foldl record l := by
  induction ts generalizing l with
  | nil => rfl
  | cons t ts ih =>
    by_cases ht : outcome t = .interrupted
    · have hrecord : l.record t = l := by simp [record, ht]
      rw [List.foldl_cons, hrecord, List.filter_cons_of_neg (by simpa using ht)]
      exact ih l
    · rw [List.filter_cons_of_pos (by simpa using ht), List.foldl_cons, List.foldl_cons]
      exact ih _

/-- What is left after tests without a crash. -/
lemma recorded_of_no_crash {ts : List (Test × Checks)} (h : ∀ t ∈ ts, outcome t ≠ .crash) :
    Recorded (ts.filter fun t => outcome t ≠ .interrupted) (ts.foldl record initial) := by
  rw [foldl_record_filter]
  refine recorded_foldl fun t ht => ?_
  rw [List.mem_filter, decide_eq_true_eq] at ht
  exact ⟨h t ht.1, ht.2⟩

lemma earned_filter (ts : List (Test × Checks)) :
    earned (ts.filter fun t => outcome t ≠ .interrupted) = earned ts := by
  rw [earned, List.filter_filter, earned]
  congr 2
  refine List.filter_congr fun t _ => ?_
  cases outcome t <;> rfl

lemma occurred_filter (ts : List (Test × Checks)) :
    occurred (ts.filter fun t => outcome t ≠ .interrupted) = occurred ts := by
  unfold occurred
  refine List.filter_congr fun k _ => ?_
  rw [List.any_filter]
  congr 1
  funext t
  cases outcome t <;> rfl

lemma points_foldl {ts : List (Test × Checks)} (h : ∀ t ∈ ts, outcome t ≠ .crash) :
    (ts.foldl record initial).points = earned ts :=
  (recorded_of_no_crash h).points.trans (earned_filter ts)

lemma foldl_concat_crash {us : List (Test × Checks)} {t : Test × Checks} {l : Loop}
    (ht : outcome t = .crash) : (us ++ [t]).foldl record l = (us.foldl record l).crash := by
  rw [List.foldl_append]
  simp [record, ht]

lemma earned_concat_crash {us : List (Test × Checks)} {t : Test × Checks}
    (ht : outcome t = .crash) : earned (us ++ [t]) = earned us := by
  simp [earned, List.filter_append, ht]

/-- A test that crashed is the last one. -/
lemma prefix_executed {ts us : List (Test × Checks)} (h : us <+: executed acm ts) :
    (∀ t ∈ us, outcome t ≠ .crash) ∨ ∃ vs t, us = vs ++ [t] ∧ outcome t = .crash ∧
      vs <+: executed acm ts ∧ ∀ t ∈ vs, outcome t ≠ .crash := by
  have hgoes : ∀ t ∈ ts.takeWhile fun t => !(outcome t).ends acm, outcome t ≠ .crash := by
    intro t ht hcrash
    have hp := List.mem_takeWhile_imp ht
    rw [hcrash] at hp
    cases hp
  unfold executed at h ⊢
  cases hrest : ts.dropWhile fun t => !(outcome t).ends acm with
  | nil =>
    rw [hrest, List.take_nil, List.append_nil] at h
    exact .inl fun t ht => hgoes t (h.subset ht)
  | cons t rest =>
    rw [hrest] at h
    rcases List.prefix_concat_iff.1 h with rfl | hus
    · by_cases ht : outcome t = .crash
      · exact .inr ⟨_, t, rfl, ht, List.prefix_append _ _, hgoes⟩
      · refine .inl fun u hu => ?_
        rcases List.mem_append.1 hu with hu | hu
        · exact hgoes u hu
        · rwa [List.mem_singleton.1 hu]
    · exact .inl fun u hu => hgoes u (hus.subset hu)

lemma isInt_foldl_iff (ts : List (Test × Checks)) :
    (∀ us ∈ (executed acm ts).inits, IsInt (us.foldl record initial).points) ↔
      ∀ us, us <+: executed acm ts → IsInt (earned us) := by
  constructor
  · intro h us hus
    rcases prefix_executed hus with hnone | ⟨vs, t, rfl, ht, hvs, hnone⟩
    · rw [← points_foldl hnone]
      exact h us ((List.mem_inits _ _).2 hus)
    · rw [earned_concat_crash ht, ← points_foldl hnone]
      exact h vs ((List.mem_inits _ _).2 hvs)
  · intro h us hus
    rw [List.mem_inits] at hus
    rcases prefix_executed hus with hnone | ⟨vs, t, rfl, ht, -, -⟩
    · rw [points_foldl hnone]
      exact h us hus
    · rw [foldl_concat_crash ht]
      exact isInt_zero

/-- The flags say whether an error occurred. -/
lemma pushErrors_eq_nil_iff {ts : List (Test × Checks)} (h : ∀ t ∈ ts, outcome t ≠ .crash) :
    (ts.foldl record initial).pushErrors = [] ↔ occurred ts = [] := by
  have hrecorded := recorded_of_no_crash h
  rw [hrecorded.pushErrors_eq, occurred_filter]
  cases occurred ts with
  | nil => simp
  | cons k ks =>
    obtain ⟨r, hr⟩ := intercalate_cons_eq_append " ".toList k.code (ks.map Kind.code)
    rw [List.map_cons, hr]
    simp [k.code_ne_nil]

lemma points_done {l : Loop} (hcr : l.cr = false) (bonus : ℤ) (active : Bool) :
    (l.done bonus active).points =
      if active = true ∧ l.pushErrors = [] then l.points + bonus else l.points := by
  unfold done
  cases active with
  | false => simp
  | true =>
    by_cases herrors : l.pushErrors = []
    · simp [hcr, herrors]
    · simp [hcr, herrors]

/-- The last addition. -/
lemma isInt_done_iff {bonus : ℤ} {ts : List (Test × Checks)} {active : Bool}
    (hsums : ∀ us, us <+: executed acm ts → IsInt (earned us)) :
    IsInt (((executed acm ts).foldl record initial).done bonus active).points ↔
      (active = true → (∀ t ∈ executed acm ts, outcome t ≠ .crash) →
        occurred (executed acm ts) = [] → IsInt (earned (executed acm ts) + bonus)) := by
  rcases prefix_executed (List.prefix_refl (executed acm ts)) with hnone | ⟨vs, t, hts, ht, -, -⟩
  · have hcr : ((executed acm ts).foldl record initial).cr = false :=
      (recorded_of_no_crash hnone).cr
    have hwhole := hsums _ (List.prefix_refl _)
    rw [points_done hcr, points_foldl hnone,
      if_congr (and_congr_right' (pushErrors_eq_nil_iff hnone)) rfl rfl]
    split_ifs with hbonus
    · exact ⟨fun hint _ _ _ => hint, fun hint => hint hbonus.1 hnone hbonus.2⟩
    · exact iff_of_true hwhole fun hactive _ hoccurred => absurd ⟨hactive, hoccurred⟩ hbonus
  · have hcrash : ∃ t ∈ executed acm ts, outcome t = .crash :=
      ⟨t, by rw [hts]; exact List.mem_concat_self, ht⟩
    rw [hts, foldl_concat_crash ht, done_crash, ← hts]
    refine iff_of_true isInt_zero fun _ hnone => ?_
    obtain ⟨u, hu, hucrash⟩ := hcrash
    exact absurd hucrash (hnone u hu)

end Loop

/-- Once the table is filled, the result is that of the cycle if and only if the sums fit. -/
lemma testingMainLoop_eq {junk acm : Bool} {testsPchar bonusPchar : CStr} {points : List ℤ}
    {met : ℕ → Test × Checks} {active : Bool} (h : testsTable junk testsPchar = some points) :
    (PointsFit acm (atoi bonusPchar) (testsOf points met) active →
      testingMainLoop junk acm testsPchar bonusPchar met active =
        some ((Loop.initial.cycle acm (testsOf points met)).done (atoi bonusPchar) active)) ∧
    (¬PointsFit acm (atoi bonusPchar) (testsOf points met) active →
      testingMainLoop junk acm testsPchar bonusPchar met active = none) := by
  have hcycle := @Loop.cycleInt_eq acm (testsOf points met) Loop.initial
    ⟨by decide, by decide⟩
  simp only [testingMainLoop, h, hcycle, Option.bind_eq_bind, Option.bind_some]
  constructor
  · rintro ⟨hsums, hbonus⟩
    rw [if_pos ((Loop.isInt_foldl_iff _).2 hsums), Option.bind_some, if_pos]
    rw [Loop.cycle_eq_foldl]
    exact (Loop.isInt_done_iff hsums).2 hbonus
  · intro hfit
    by_cases hsums : ∀ us, us <+: executed acm (testsOf points met) → IsInt (earned us)
    · rw [if_pos ((Loop.isInt_foldl_iff _).2 hsums), Option.bind_some, if_neg]
      rw [Loop.cycle_eq_foldl]
      exact fun hint => hfit ⟨hsums, (Loop.isInt_done_iff hsums).1 hint⟩
    · rw [if_neg fun h => hsums ((Loop.isInt_foldl_iff _).1 h)]
      rfl

/-- An accepted, a wrong and an accepted answer. -/
example : (testingMainLoop false false "10 20 30".toList "5".toList
      (fun i => (sampleTest 0 (if i = 1 then 1 else 0), .active)) true).map
      (fun l => (l.points, l.errors, l.testsRes)) =
    some (40, "WA".toList, "OK WA OK".toList) := by
  decide +kernel

end WebTester.Informatics
