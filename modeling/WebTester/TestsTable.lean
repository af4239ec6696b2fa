import Mathlib.Data.List.DropRight
import WebTester.HiveScan
import WebTester.Scoring

/-!
# The table of tests

`testing_main_loop` splits the parameter `TESTS` into the points of the tests. The trimmed text, the
points and the text of the results have buffers of fixed sizes; what happens outside of them is not
defined.
-/
namespace WebTester.Strlib
open CString Hive

/-- `trim`. -/
def trim (s : CStr) : CStr := (s.dropWhile isBlank).rdropWhile isBlank

/-- The loop of `explode` for a separator of one character: `token` is what the buffer has. -/
def explodeFrom (separator : Char) : CStr → CStr → List CStr
  | token, [] => [token]
  | token, c :: s =>
    if c = separator then token :: explodeFrom separator [] s
    else explodeFrom separator (token ++ [c]) s

/-- `explode` with a buffer of 4096 bytes for a token. The last token is compared with the separator
before it is ended: it begins with a character that was written, unless the text is empty; `junk`
tells whether the new buffer looks like the separator. -/
def explode (separator : Char) (junk : Bool) (s : CStr) : Option (List CStr) :=
  let tokens := if s = [] ∧ junk then [] else explodeFrom separator [] s
  if tokens.all (·.length < 4096) then some tokens else none

lemma length_explodeFrom (separator : Char) (token s : CStr) :
    (explodeFrom separator token s).length = s.count separator + 1 := by
  induction s generalizing token with
  | nil => rfl
  | cons c s ih =>
    rw [explodeFrom]
    split_ifs with hc
    · rw [List.length_cons, ih, hc, List.count_cons_self]
    · rw [ih, List.count_cons_of_ne hc]

lemma length_of_mem_explodeFrom {separator : Char} {token s t : CStr}
    (h : t ∈ explodeFrom separator token s) : t.length ≤ token.length + s.length := by
  induction s generalizing token with
  | nil =>
    obtain rfl : t = token := by simpa [explodeFrom] using h
    simp
  | cons c s ih =>
    rw [explodeFrom] at h
    split_ifs at h with hc
    · rcases List.mem_cons.1 h with rfl | h
      · exact Nat.le_add_right _ _
      · have := ih h
        simp only [List.length_nil, List.length_cons] at this ⊢
        omega
    · have := ih h
      simp only [List.length_append, List.length_cons, List.length_nil] at this ⊢
      omega

/-- A text that fits the buffer is split, into one part more than it has separators. -/
lemma explode_of_fits {separator : Char} (junk : Bool) {s : CStr} (h : s.length < 4096) :
    ∃ tokens, explode separator junk s = some tokens ∧
      (tokens.length = s.count separator + 1 ∨ s = [] ∧ tokens = []) := by
  have hall : (explodeFrom separator [] s).all (·.length < 4096) = true := by
    rw [List.all_eq_true]
    intro t ht
    have := length_of_mem_explodeFrom ht
    simp only [List.length_nil, Nat.zero_add] at this
    exact decide_eq_true (this.trans_lt h)
  by_cases hjunk : s = [] ∧ junk
  · exact ⟨[], by simp [explode, hjunk], .inr ⟨hjunk.1, rfl⟩⟩
  · refine ⟨explodeFrom separator [] s, ?_, .inl (length_explodeFrom separator [] s)⟩
    simp only [explode, if_neg hjunk, if_pos hall]

end WebTester.Strlib

namespace WebTester.Informatics
open CString Strlib

def maxTests : ℕ := 1024

def maxErrcode : ℕ := 2

/-- The assignments `tests[i] = atoi (tests_pchar_arr[i])` from an index on. -/
def fillTests : ℕ → List CStr → Option (List ℤ)
  | _, [] => some []
  | i, t :: ts => if i < maxTests then (fillTests (i + 1) ts).map (atoi t :: ·) else none

/-- The points of the tests: the trimmed text has a buffer of 4096 bytes. -/
def testsTable (junk : Bool) (testsPchar : CStr) : Option (List ℤ) :=
  let effectiveTests := trim testsPchar
  if effectiveTests.length < 4096 then
    (explode ' ' junk effectiveTests).bind (fillTests 0)
  else none

lemma fillTests_isSome_iff (i : ℕ) (ts : List CStr) :
    (fillTests i ts).isSome ↔ ts = [] ∨ i + ts.length ≤ maxTests := by
  induction ts generalizing i with
  | nil => simp [fillTests]
  | cons t ts ih =>
    rw [fillTests]
    split_ifs with hi
    · rw [Option.isSome_map, ih]
      cases ts with
      | nil => simp; omega
      | cons => simp; omega
    · simp; omega

lemma length_fillTests {i : ℕ} {ts : List CStr} {points : List ℤ}
    (h : fillTests i ts = some points) : points.length = ts.length := by
  induction ts generalizing i points with
  | nil =>
    obtain rfl : [] = points := by simpa [fillTests] using h
    rfl
  | cons t ts ih =>
    rw [fillTests] at h
    split_ifs at h with hi
    obtain ⟨rest, hrest, rfl⟩ := Option.map_eq_some_iff.1 h
    rw [List.length_cons, List.length_cons, ih hrest]

lemma length_testsTable {junk : Bool} {testsPchar : CStr} {tests : List ℤ}
    (h : testsTable junk testsPchar = some tests) : tests.length ≤ maxTests := by
  simp only [testsTable] at h
  split_ifs at h
  obtain ⟨tokens, -, hfill⟩ := Option.bind_eq_some_iff.1 h
  have hsome := (fillTests_isSome_iff 0 tokens).1 (Option.isSome_of_eq_some hfill)
  rw [length_fillTests hfill]
  rcases hsome with rfl | hle
  · exact Nat.zero_le _
  · omega

/-- The table is filled inside of its buffers if and only if the trimmed text has at most 4095
characters and less than 1024 spaces. -/
theorem testsTable_isSome_iff (junk : Bool) (testsPchar : CStr) :
    (testsTable junk testsPchar).isSome ↔
      (trim testsPchar).length ≤ 4095 ∧ (trim testsPchar).count ' ' < maxTests := by
  simp only [testsTable]
  split_ifs with hfits
  · obtain ⟨tokens, htokens, hlen⟩ := @explode_of_fits ' ' junk _ hfits
    rw [htokens, Option.bind_some, fillTests_isSome_iff, and_iff_right (Nat.le_of_lt_succ hfits)]
    rcases hlen with hlen | ⟨hempty, rfl⟩
    · have hne : tokens ≠ [] := by
        rintro rfl
        simp at hlen
      rw [or_iff_right hne, hlen]
      omega
    · simp [hempty, maxTests]
  · refine iff_of_false (by simp) ?_
    rintro ⟨hle, -⟩
    omega

/-! ## The text of the results -/

namespace Loop

/-- The text of `n` tests with the NUL at its end. -/
def ResultsFit (n : ℕ) (l : Loop) : Prop :=
  l.testsRes = [] ∨ l.testsRes.length < (maxErrcode + 1) * n

lemma ResultsFit.mono {m n : ℕ} {l : Loop} (h : l.ResultsFit m) (hmn : m ≤ n) :
    l.ResultsFit n :=
  h.imp_right fun hlt => hlt.trans_le (Nat.mul_le_mul_left _ hmn)

lemma ResultsFit.push {n : ℕ} {l : Loop} (h : l.ResultsFit n) {code : CStr}
    (hcode : code.length = maxErrcode) :
    (pushString code " ".toList l.testsRes).length < (maxErrcode + 1) * (n + 1) := by
  simp only [maxErrcode] at hcode ⊢
  unfold pushString
  rcases h with hempty | hlt
  · rw [if_neg (by simp [hempty]), List.length_append, hempty, List.length_nil]
    omega
  · simp only [maxErrcode] at hlt
    split_ifs
    · rw [List.length_append, List.length_append]
      have hspace : " ".toList.length = 1 := rfl
      omega
    · rw [List.length_append]
      omega

lemma length_code (k : Kind) : k.code.length = maxErrcode := by
  cases k <;> rfl

/-- A test adds one code at most. -/
lemma ResultsFit.record {n : ℕ} {l : Loop} (h : l.ResultsFit n) (t : Test × Checks) :
    (l.record t).ResultsFit (n + 1) := by
  unfold Loop.record
  cases outcome t with
  | ok => exact .inr (h.push rfl)
  | error k => exact .inr (h.push (length_code k))
  | crash => exact h.mono (Nat.le_succ n)
  | interrupted => exact h.mono (Nat.le_succ n)

lemma ResultsFit.run {n : ℕ} {l : Loop} (h : l.ResultsFit n) (ts : List (Test × Checks)) :
    (ts.foldl Loop.record l).ResultsFit (n + ts.length) := by
  induction ts generalizing l n with
  | nil => exact h
  | cons t ts ih =>
    rw [List.foldl_cons, List.length_cons, Nat.add_comm ts.length 1, ← Nat.add_assoc]
    exact ih (h.record t)

lemma length_executed_le (acm : Bool) (ts : List (Test × Checks)) :
    (executed acm ts).length ≤ ts.length := by
  rw [executed, List.length_append]
  have hlen := congrArg List.length
    (List.takeWhile_append_dropWhile (p := fun t => !(outcome t).ends acm) (l := ts))
  rw [List.length_append] at hlen
  have htake := List.length_take_le' 1 (ts.dropWhile fun t => !(outcome t).ends acm)
  omega

/-- The results of a run over tests that have places in the table fit their buffer. -/
lemma cycle_fits (acm : Bool) {ts : List (Test × Checks)} (h : ts.length ≤ maxTests) :
    (initial.cycle acm ts).testsRes.length < (maxErrcode + 1) * maxTests := by
  have hstart : initial.ResultsFit 0 := .inl rfl
  have hrun := (hstart.run (executed acm ts)).mono
    ((Nat.zero_add _).trans_le ((length_executed_le acm ts).trans h))
  rw [cycle_eq_foldl]
  rcases hrun with hempty | hlt
  · rw [hempty]
    decide
  · exact hlt

end Loop

/-- For a parameter `TESTS` all writes stay inside of `effective_tests`, `tests` and
`tests_res_pchar`, at any moment of any run over the tests, if and only if the trimmed text has at
most 4095 characters and less than 1024 spaces. -/
theorem tables_fit_iff (junk : Bool) (testsPchar : CStr) :
    (∃ tests, testsTable junk testsPchar = some tests ∧
      ∀ (acm : Bool) (ts : List (Test × Checks)), ts.map (·.1.points) <+: tests →
        (Loop.initial.cycle acm ts).testsRes.length < (maxErrcode + 1) * maxTests) ↔
      (trim testsPchar).length ≤ 4095 ∧ (trim testsPchar).count ' ' < maxTests := by
  rw [← testsTable_isSome_iff junk]
  constructor
  · rintro ⟨tests, htable, -⟩
    exact Option.isSome_of_eq_some htable
  · intro hsome
    obtain ⟨tests, htable⟩ := Option.isSome_iff_exists.1 hsome
    refine ⟨tests, htable, fun acm ts hpoints => Loop.cycle_fits acm ?_⟩
    have hlen := hpoints.length_le
    rw [List.length_map] at hlen
    exact hlen.trans (length_testsTable htable)

/-- The points `1 1 1 …` of 1025 tests. -/
def manyTests : CStr := (List.replicate 1024 "1 ".toList).flatten ++ ['1']

theorem many_tests_outside_table : testsTable false manyTests = none := by
  decide +kernel

end WebTester.Informatics
