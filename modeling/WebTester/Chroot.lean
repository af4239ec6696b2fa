import Mathlib.Data.List.Induction
import WebTester.TestingLoop

/-!
# Chroot settings of solutions

`use_chroot` is one variable of the module. `read_config` sets it from the module's
`ChRoot` key and `testing_main_loop` overwrites it when the compiler of its task has a
key of its own; it is never set back. The value passed to `run_set_chroot` therefore
depends on the tasks that entered `testing_main_loop` before.
-/
namespace WebTester.Informatics
open CString Librun

/-! ## A variable that is overwritten -/

section Overwritten

variable {α β : Type*} (key : α → Option β)

/-- The last value written by a sequence of entries. -/
def lastWritten (es : List α) : Option β := (es.filterMap key).getLast?

lemma lastWritten_append (es fs : List α) :
    lastWritten key (es ++ fs) = (lastWritten key fs).or (lastWritten key es) := by
  simp [lastWritten, List.filterMap_append, List.getLast?_append]

lemma lastWritten_cons (e : α) (es : List α) :
    lastWritten key (e :: es) = (lastWritten key es).or (key e) := by
  have h : lastWritten key [e] = key e := by cases hk : key e <;> simp [lastWritten, hk]
  rw [← List.singleton_append, lastWritten_append, h]

/-- The variable holds what was written last. -/
theorem foldl_overwrite (es : List α) (x : β) :
    es.foldl (fun x e => (key e).getD x) x = (lastWritten key es).getD x := by
  induction es generalizing x with
  | nil => rfl
  | cons e es ih =>
    rw [List.foldl_cons, ih, lastWritten_cons]
    cases lastWritten key es <;> rfl

end Overwritten

/-! ## The module's variable -/

/-- The configuration that is read: the truth value of the module's `ChRoot` key, and the
integer of the `ChRoot` key of a compiler that has one. -/
structure Config where
  moduleChroot : Bool
  compilerChroot : CStr → Option ℤ

namespace Config

variable (cfg : Config)

/-- `use_chroot` after `read_config`. -/
def readConfig : ℤ := if cfg.moduleChroot then 1 else 0

/-- The assignment of `testing_main_loop` for a task with this compiler. -/
def enter (useChroot : ℤ) (compiler : CStr) : ℤ :=
  let compilerChroot := (cfg.compilerChroot compiler).getD (-1)
  if 0 ≤ compilerChroot then compilerChroot else useChroot

/-- `use_chroot` after tasks with these compilers have entered `testing_main_loop`. -/
def useChroot (compilers : List CStr) : ℤ := compilers.foldl cfg.enter cfg.readConfig

/-- The process of a solution before it is executed. -/
def solutionProcess (compilers : List CStr) (p : Process) : Process :=
  p.setChroot (cfg.useChroot compilers)

/-- The value that a compiler's key writes. -/
def override (compiler : CStr) : Option ℤ := (cfg.compilerChroot compiler).filter (0 ≤ ·)

/-- The setting by the configuration alone: the compiler's key before the module's. -/
def setting (compiler : CStr) : ℤ := (cfg.override compiler).getD cfg.readConfig

lemma enter_eq (useChroot : ℤ) (compiler : CStr) :
    cfg.enter useChroot compiler = (cfg.override compiler).getD useChroot := by
  unfold enter override
  cases hk : cfg.compilerChroot compiler with
  | none => simp
  | some k =>
    by_cases h : 0 ≤ k
    · simp [h, Option.filter]
    · simp [h, Option.filter]

theorem useChroot_eq (compilers : List CStr) :
    cfg.useChroot compilers = (lastWritten cfg.override compilers).getD cfg.readConfig := by
  unfold useChroot
  rw [← foldl_overwrite]
  congr 1
  funext x c
  exact cfg.enter_eq x c

/-- When nothing was written meanwhile, the variable holds the task's own value or what
the tasks before have left. -/
lemma useChroot_concat (before : List CStr) (c : CStr) :
    cfg.useChroot (before ++ [c]) = (cfg.override c).getD (cfg.useChroot before) := by
  rw [useChroot, List.foldl_append]
  exact cfg.enter_eq _ c

lemma useChroot_concat_eq_iff (before : List CStr) (c : CStr) :
    cfg.useChroot (before ++ [c]) = cfg.setting c ↔
      cfg.override c ≠ none ∨
        ∀ v, lastWritten cfg.override before = some v → v = cfg.readConfig := by
  rw [useChroot_concat, useChroot_eq, setting]
  cases cfg.override c with
  | some v => simp
  | none => cases lastWritten cfg.override before <;> simp

/-- Keys that all agree with the module's are written without effect. -/
lemma useChroot_eq_readConfig {cfg : Config}
    (hmod : ∀ c v, cfg.override c = some v → v = cfg.readConfig) (compilers : List CStr) :
    cfg.useChroot compilers = cfg.readConfig := by
  induction compilers using List.reverseRecOn with
  | nil => rfl
  | append_singleton es e ih =>
    rw [useChroot_concat, ih]
    cases he : cfg.override e with
    | none => rfl
    | some v => exact hmod e v he

/-- When the value passed for a task's solution is the configured one: the last key of a
task that entered meanwhile has that value; or no such task has a key, and the task's own
compiler has one or the last key of an earlier task has the module's value. Histories do
not matter at all when every compiler has a key or every key has the module's value. -/
theorem chroot_static_iff (cfg : Config) :
    (∀ (before after : List CStr) (c : CStr),
      cfg.useChroot (before ++ c :: after) = cfg.setting c ↔
        (∀ v, lastWritten cfg.override after = some v → v = cfg.setting c) ∧
        (lastWritten cfg.override after = none → cfg.override c ≠ none ∨
          ∀ v, lastWritten cfg.override before = some v → v = cfg.readConfig)) ∧
    ((∀ (before before' : List CStr) (c : CStr),
      cfg.useChroot (before ++ [c]) = cfg.useChroot (before' ++ [c])) ↔
        (∀ c, cfg.override c ≠ none) ∨ ∀ c v, cfg.override c = some v → v = cfg.readConfig) := by
  constructor
  · intro before after c
    have hone := cfg.useChroot_concat_eq_iff before c
    rw [useChroot_eq, lastWritten_append, lastWritten_cons] at hone ⊢
    cases ha : lastWritten cfg.override after with
    | some v => simp
    | none => simpa [lastWritten] using hone
  · constructor
    · intro h
      by_cases hall : ∀ c, cfg.override c ≠ none
      · exact .inl hall
      · right
        obtain ⟨c, hc⟩ := not_forall_not.1 hall
        intro d v hd
        have hh := h [d] [] c
        simpa [useChroot, enter_eq, hc, hd] using hh
    · rintro (hall | hmod) before before' c
      · obtain ⟨v, hv⟩ := Option.ne_none_iff_exists'.1 (hall c)
        simp [useChroot_concat, hv]
      · simp only [useChroot_eq_readConfig hmod]

/-- The configuration that comes with the server: chroot is on, and off for Java. -/
def sample : Config where
  moduleChroot := true
  compilerChroot c := if c = "Java".toList then some 0 else none

/-- After a Java task, a solution in C is executed without chroot. -/
theorem sample_interference :
    ¬ ∀ (cfg : Config) (before before' : List CStr) (c : CStr),
      cfg.useChroot (before ++ [c]) = cfg.useChroot (before' ++ [c]) := by
  intro h
  have hh := h sample ["Java".toList] [] "GCC".toList
  revert hh
  decide

example : (sample.solutionProcess ["Java".toList, "GCC".toList]
    (.spawnNewProcess 1 [] 0 0)).chroot = false := by decide

end Config

end WebTester.Informatics
