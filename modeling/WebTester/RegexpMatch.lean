import WebTester.Regexp
import WebTester.TaskList

/-!
# Matching with a vector that is too small

The library reports a match by the number of its pairs, and by zero where the vector has no room
for them. The size of the vector comes from the subject, so short subjects are reported as not
matching: the empty one always, and a task list with a single task of one digit each.
-/
namespace WebTester.Preg
open CString TaskList

/-- The documented answers of `pcre_exec` for an expression. `needs` gives, for a subject that the
expression matches, the number of pairs up to the highest group that is set. -/
structure Documented (handle : Handle) (needs : CStr → Option ℕ) : Prop where
  unmatched : ∀ s n, needs s = none → (handle s n).result < 0
  tooSmall : ∀ s n k, needs s = some k → n / 3 < k → (handle s n).result = 0
  matched : ∀ s n k, needs s = some k → k ≤ n / 3 → (handle s n).result = k
  pos : ∀ s k, needs s = some k → 0 < k

variable {re : Regexp} {needs : CStr → Option ℕ} {s : CStr}

/-- A match is seen when the vector has room for its pairs. -/
lemma regexpMatch_eq (h : Documented re.handle needs) :
    regexpMatch re s = (needs s).any fun k => k ≤ (s.length + 1) * 2 / 3 := by
  unfold regexpMatch regexpGetVector
  cases hs : needs s with
  | none =>
    have hresult := h.unmatched s (ovectorSize s) hs
    exact decide_eq_false (by omega)
  | some k =>
    have hpos := h.pos s k hs
    have hsize : ovectorSize s / 3 = (s.length + 1) * 2 / 3 := rfl
    by_cases hk : k ≤ (s.length + 1) * 2 / 3
    · rw [h.matched s _ k hs (hsize ▸ hk)]
      simp only [Option.any_some, hk, decide_true, decide_eq_true_eq]
      omega
    · rw [h.tooSmall s _ k hs (hsize ▸ not_le.1 hk)]
      simp [hk]

/-! ## Task lists -/

/-- The expression in `webiface_get_task_list`, without its slashes. -/
def taskListText : CStr := "^([0-9]+@[0-9]+\n)*([0-9]+@[0-9]+)?$".toList

def taskListRegexp : CStr := '/' :: taskListText ++ "/s".toList

/-- The pairs that the library needs for a task list. -/
def taskListNeeds (body : CStr) : Option ℕ :=
  if grammarMatch body then some (grammarPairs body) else none

variable {pcreCompile : CStr → List Modifier → Option Handle}

/-- The expression is compiled, and its matches are found as documented. -/
def TaskListCompiled (pcreCompile : CStr → List Modifier → Option Handle) : Prop :=
  ∃ handle, pcreCompile taskListText [.dotall] = some handle ∧ Documented handle taskListNeeds

lemma parseRegexp_taskList : parseRegexp taskListRegexp = some (taskListText, [.dotall]) := by
  decide

/-- The check of the reply is the one that `taskListMatch` makes. -/
theorem pregMatch_taskList (h : TaskListCompiled pcreCompile) (body : CStr) :
    pregMatch pcreCompile taskListRegexp body = taskListMatch body := by
  obtain ⟨handle, hcompile, hdoc⟩ := h
  have hre : regexpCompile pcreCompile taskListRegexp = some ⟨handle, [.dotall]⟩ := by
    have hoptions : [Modifier.dotall].filter (· ≠ .replaceGlobal) = [.dotall] := by decide
    rw [regexpCompile, parseRegexp_taskList]
    simp only [hoptions, hcompile]
    rfl
  rw [pregMatch, hre]
  simp only
  rw [@regexpMatch_eq ⟨handle, [.dotall]⟩ _ _ hdoc, taskListNeeds, taskListMatch]
  split
  · rename_i hgrammar
    simp [hgrammar]
  · rename_i hgrammar
    simp [hgrammar]

/-- Of the texts of the grammar, the empty one and a single task of three characters have no
room. -/
lemma grammarPairs_le_iff {body : CStr} (h : grammarMatch body = true) :
    grammarPairs body ≤ (body.length + 1) * 2 / 3 ↔ body ≠ [] ∧ body.length ≠ 3 := by
  have hpairs : grammarPairs body ≤ 3 := by
    unfold grammarPairs
    split_ifs <;> omega
  match body with
  | [] => simp [grammarPairs]
  | [a] =>
    have hnewline : a = '\n' := by simpa [grammarMatch, linesMatch] using h
    subst hnewline
    decide
  | [a, b] => simp [grammarMatch, linesMatch] at h
  | [a, b, c] =>
    have hdigit : c.isDigit = true := by
      simp [grammarMatch, linesMatch] at h
      exact h.2.2
    simp [grammarPairs, hdigit]
  | a :: b :: c :: d :: rest =>
    simp only [List.length_cons]
    refine iff_of_true (by omega) ⟨List.cons_ne_nil _ _, by omega⟩

/-- A subject is seen to match exactly when it matches and the vector has room; a task list passes
exactly when it is not empty and not of three characters. -/
theorem match_iff (h : Documented re.handle needs) (hlist : TaskListCompiled pcreCompile)
    (s : CStr) :
    ((regexpMatch re s = true ↔ (needs s).isSome = true) ↔
        ∀ k, needs s = some k → 3 * k ≤ 2 * (s.length + 1)) ∧
      (grammarMatch s = true →
        (pregMatch pcreCompile taskListRegexp s = true ↔ s ≠ [] ∧ s.length ≠ 3)) := by
  constructor
  · rw [regexpMatch_eq h]
    cases hs : needs s with
    | none => simp
    | some k =>
      simp only [Option.any_some, decide_eq_true_eq, Option.isSome_some, iff_true,
        Option.some.injEq, forall_eq']
      omega
  · intro hgrammar
    rw [pregMatch_taskList hlist, taskListMatch, hgrammar, Bool.true_and, decide_eq_true_eq,
      grammarPairs_le_iff hgrammar]

/-- A library that answers as documented; it finds the whole subject. -/
def handleOf (needs : CStr → Option ℕ) : Handle := fun s n =>
  match needs s with
  | none => .noMatch s
  | some k =>
    if n / 3 < k then .noRoom s
    else .found ⟨0, s.length, Nat.zero_le _, Nat.le_refl _, List.replicate (k - 1) none⟩

lemma documented_handleOf (hpos : ∀ s k, needs s = some k → 0 < k) :
    Documented (handleOf needs) needs where
  unmatched s n hs := by
    simp [handleOf, hs, Exec.noMatch, Exec.result]
  tooSmall s n k hs hn := by
    simp [handleOf, hs, hn, Exec.noRoom, Exec.result]
  matched s n k hs hn := by
    have hk := hpos s k hs
    simp only [handleOf, hs, not_lt.2 hn, if_false, Exec.result, List.length_replicate]
    omega
  pos := hpos

lemma taskListNeeds_pos (s : CStr) (k : ℕ) (h : taskListNeeds s = some k) : 0 < k := by
  unfold taskListNeeds grammarPairs at h
  split_ifs at h
  all_goals
    obtain rfl := Option.some.inj h
    decide

/-- A library that compiles this one expression. -/
def sampleCompile (text : CStr) (options : List Modifier) : Option Handle :=
  if text = taskListText ∧ options = [.dotall] then some (handleOf taskListNeeds) else none

/-- Two tasks are accepted. -/
theorem match_iff_two_tasks :
    pregMatch sampleCompile taskListRegexp "12@3\n7@10".toList = true := by
  have hdoc := documented_handleOf taskListNeeds_pos
  have hlist : TaskListCompiled sampleCompile := ⟨_, if_pos ⟨rfl, rfl⟩, hdoc⟩
  have hboth := @match_iff ⟨handleOf taskListNeeds, [.dotall]⟩ _ _ hdoc hlist
    "12@3\n7@10".toList
  exact (hboth.2 (by decide)).2 (by decide)

/-- One task, a text of the grammar, is not; nor does the empty text match anything. -/
theorem single_task_rejected :
    grammarMatch "1@2".toList = true ∧
      pregMatch sampleCompile taskListRegexp "1@2".toList = false ∧
      regexpMatch ⟨handleOf fun _ => some 1, []⟩ [] = false := by
  decide

end WebTester.Preg
