import Mathlib.Logic.Relation
import Mathlib.Data.Nat.Notation

/-!
# Loops

A loop repeats a step until there is none to make. It is run with a bound on the number
of steps; whether it ends is a question about the steps it can reach.
-/
namespace WebTester.Loop

variable {σ : Type*} {step : σ → Option σ} {s t u : σ}

/-- Runs a loop for a bounded number of steps; no result when they were not enough. -/
def run (step : σ → Option σ) : ℕ → σ → Option σ
  | 0, s => if (step s).isNone then some s else none
  | n + 1, s => match step s with
    | none => some s
    | some t => run step n t

def Reaches (step : σ → Option σ) : σ → σ → Prop :=
  Relation.ReflTransGen fun s t => step s = some t

/-- The loop ends, in some number of steps. -/
def Ends (step : σ → Option σ) (s : σ) : Prop := ∃ n, (run step n s).isSome

theorem reaches_of_run {n : ℕ} (h : run step n s = some t) :
    Reaches step s t ∧ step t = none := by
  induction n generalizing s with
  | zero =>
    unfold run at h
    split at h
    · next hs =>
      cases h
      exact ⟨.refl, Option.isNone_iff_eq_none.1 hs⟩
    · cases h
  | succ n ih =>
    unfold run at h
    split at h
    · next hs =>
      cases h
      exact ⟨.refl, hs⟩
    · next u hs =>
      obtain ⟨hr, ht⟩ := ih h
      exact ⟨.head hs hr, ht⟩

theorem exists_run (h : Reaches step s t) (ht : step t = none) : ∃ n, run step n s = some t := by
  induction h using Relation.ReflTransGen.head_induction_on with
  | refl => exact ⟨0, by simp [run, ht]⟩
  | head hs _ ih =>
    obtain ⟨n, hn⟩ := ih
    exact ⟨n + 1, by simp [run, hs, hn]⟩

/-- More steps than a loop needs do not change its result. -/
theorem run_mono {n m : ℕ} (h : run step n s = some t) (hm : n ≤ m) : run step m s = some t := by
  induction n generalizing s m with
  | zero =>
    obtain ⟨hr, ht⟩ := reaches_of_run h
    unfold run at h
    split at h
    · next hs =>
      cases h
      cases m with
      | zero => simp [run, hs]
      | succ m => simp [run, ht]
    · cases h
  | succ n ih =>
    obtain ⟨m, rfl⟩ : ∃ m', m = m' + 1 := ⟨m - 1, by omega⟩
    unfold run at h ⊢
    split
    · next hs =>
      rw [hs] at h
      exact h
    · next u hs =>
      rw [hs] at h
      exact ih h (by omega)

/-- A loop has one course, so that a state it passes is on the way to its end. -/
theorem Reaches.of_end (h : Reaches step s t) (hu : Reaches step s u) (he : step u = none) :
    Reaches step t u := by
  have hdet : Relator.RightUnique fun s t => step s = some t := by
    intro a b c hb hc
    exact Option.some.inj (hb.symm.trans hc)
  rcases Relation.ReflTransGen.total_of_right_unique hdet h hu with htu | hut
  · exact htu
  · rcases Relation.ReflTransGen.cases_head hut with rfl | ⟨v, hv, -⟩
    · exact .refl
    · rw [he] at hv
      cases hv

theorem Ends.of_reaches (h : Reaches step s t) (ht : Ends step t) : Ends step s := by
  obtain ⟨n, hn⟩ := ht
  obtain ⟨u, hu⟩ := Option.isSome_iff_exists.1 hn
  obtain ⟨hr, he⟩ := reaches_of_run hu
  obtain ⟨m, hm⟩ := exists_run (h.trans hr) he
  exact ⟨m, by rw [hm]; rfl⟩

theorem Ends.reaches (hs : Ends step s) (h : Reaches step s t) : Ends step t := by
  obtain ⟨n, hn⟩ := hs
  obtain ⟨u, hu⟩ := Option.isSome_iff_exists.1 hn
  obtain ⟨hr, he⟩ := reaches_of_run hu
  obtain ⟨m, hm⟩ := exists_run (h.of_end hr he) he
  exact ⟨m, by rw [hm]; rfl⟩

/-- What every step preserves holds of every state the loop reaches. -/
theorem Reaches.invariant {I : σ → Prop} (hstep : ∀ s t, I s → step s = some t → I t)
    (h : Reaches step s t) (hs : I s) : I t := by
  induction h with
  | refl => exact hs
  | tail _ ht ih => exact hstep _ _ ih ht

/-- A loop that can always make a step within an invariant does not end. -/
theorem not_ends {I : σ → Prop} (hstep : ∀ s, I s → ∃ t, step s = some t ∧ I t) (hs : I s) :
    ¬Ends step s := by
  rintro ⟨n, hn⟩
  obtain ⟨u, hu⟩ := Option.isSome_iff_exists.1 hn
  obtain ⟨hr, he⟩ := reaches_of_run hu
  have hI : I u := by
    refine hr.invariant (fun s t hI ht => ?_) hs
    obtain ⟨t', ht', hI'⟩ := hstep s hI
    rw [ht] at ht'
    cases ht'
    exact hI'
  obtain ⟨t, ht, -⟩ := hstep u hI
  rw [he] at ht
  cases ht

end WebTester.Loop
