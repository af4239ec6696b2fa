import Mathlib.Data.List.Basic
import Mathlib.Data.List.Count

/-!
# Labelled runs and their invariants

A system is a relation between a state, a label and the next state. A run lists
its labels in the order taken. Invariants are proved for one step and carried
over every run by the rules below; a guard on the steps is a smaller relation.
-/
namespace WebTester.Transition

variable {σ ε : Type*}

/-- Finite runs, extended at their end. -/
inductive Run (step : σ → ε → σ → Prop) (s : σ) : List ε → σ → Prop
  | nil : Run step s [] s
  | snoc {t u : σ} {es : List ε} {e : ε} :
      Run step s es t → step t e u → Run step s (es ++ [e]) u

/-- The steps of a relation that also meet a condition on the state before
the step and on the label. -/
def Guarded (guard : σ → ε → Prop) (step : σ → ε → σ → Prop) : σ → ε → σ → Prop :=
  fun s e t => guard s e ∧ step s e t

/-- The relation of a partial step function. -/
def StepOf (next : σ → ε → Option σ) : σ → ε → σ → Prop :=
  fun s e t => next s e = some t

/-- The last step of a monadic fold. -/
theorem foldlM_concat (next : σ → ε → Option σ) (s : σ) (es : List ε) (e : ε) :
    (es ++ [e]).foldlM next s = (es.foldlM next s).bind fun t => next t e := by
  rw [List.foldlM_append]
  simp

namespace Run

variable {step step' : σ → ε → σ → Prop} {s t u : σ} {es fs : List ε} {e : ε}

/-- What every step preserves, every run preserves. -/
theorem invariant {I : σ → Prop} (hstep : ∀ s e t, I s → step s e t → I t)
    (hr : Run step s es t) (hs : I s) : I t := by
  induction hr with
  | nil => exact hs
  | snoc _ ht ih => exact hstep _ _ _ ih ht

theorem mono (h : ∀ s e t, step s e t → step' s e t) (hr : Run step s es t) :
    Run step' s es t := by
  induction hr with
  | nil => exact .nil
  | snoc _ ht ih => exact .snoc ih (h _ _ _ ht)

/-- A guarded run is a run. -/
theorem of_guarded {guard : σ → ε → Prop} (hr : Run (Guarded guard step) s es t) :
    Run step s es t :=
  hr.mono fun _ _ _ h => h.2

theorem append (h₁ : Run step s es t) (h₂ : Run step t fs u) : Run step s (es ++ fs) u := by
  induction h₂ with
  | nil => simpa using h₁
  | snoc _ ht ih => simpa using Run.snoc ih ht

theorem cons (hr : Run step t es u) (h : step s e t) : Run step s (e :: es) u := by
  simpa using (Run.snoc .nil h).append hr

/-- When every step shows as a run of another system, so does every run. -/
theorem simulate {τ δ : Type*} {step' : τ → δ → τ → Prop} (f : σ → τ)
    (hstep : ∀ s e t, step s e t → ∃ ds, Run step' (f s) ds (f t)) (hr : Run step s es t) :
    ∃ ds, Run step' (f s) ds (f t) := by
  induction hr with
  | nil => exact ⟨[], .nil⟩
  | snoc _ ht ih =>
    obtain ⟨ds, hds⟩ := ih
    obtain ⟨ds', hds'⟩ := hstep _ _ _ ht
    exact ⟨ds ++ ds', hds.append hds'⟩

/-- Runs of a step function are computed by a monadic fold over the labels. -/
theorem of_foldlM {next : σ → ε → Option σ} (h : es.foldlM next s = some t) :
    Run (StepOf next) s es t := by
  induction es generalizing s with
  | nil =>
    obtain rfl : s = t := by simpa using h
    exact .nil
  | cons e es ih =>
    rw [List.foldlM_cons, Option.bind_eq_bind, Option.bind_eq_some_iff] at h
    obtain ⟨v, hv, ht⟩ := h
    exact (ih ht).cons hv

theorem foldlM_eq {next : σ → ε → Option σ} (hr : Run (StepOf next) s es t) :
    es.foldlM next s = some t := by
  induction hr with
  | nil => rfl
  | snoc _ ht ih =>
    rw [foldlM_concat, ih, Option.bind_some]
    exact ht

/-- A fold that goes through gives a run to its result. -/
theorem get_foldlM {next : σ → ε → Option σ} (s : σ) (es : List ε)
    (h : (es.foldlM next s).isSome) : Run (StepOf next) s es ((es.foldlM next s).get h) :=
  of_foldlM (Option.some_get h).symm

end Run

/-- The step function that refuses the steps a guard excludes. -/
def restrict (guard : σ → ε → Prop) [∀ s e, Decidable (guard s e)] (next : σ → ε → Option σ) :
    σ → ε → Option σ :=
  fun s e => if guard s e then next s e else none

theorem stepOf_restrict {guard : σ → ε → Prop} [∀ s e, Decidable (guard s e)]
    {next : σ → ε → Option σ} {s t : σ} {e : ε} :
    StepOf (restrict guard next) s e t ↔ Guarded guard (StepOf next) s e t := by
  simp [StepOf, restrict, Guarded]

/-- A fold whose iterations are steps is a run. The condition `I` speaks of the
elements still to come. -/
theorem exists_run_foldl {α : Type*} {step : σ → ε → σ → Prop} {f : σ → α → σ}
    {I : List α → σ → Prop}
    (hstep : ∀ a as s, I (a :: as) s → (∃ e, step s e (f s a)) ∧ I as (f s a))
    (as : List α) (s : σ) (hs : I as s) : ∃ es, Run step s es (as.foldl f s) := by
  induction as generalizing s with
  | nil => exact ⟨[], .nil⟩
  | cons a as ih =>
    obtain ⟨⟨e, he⟩, hI⟩ := hstep a as s hs
    obtain ⟨es, hr⟩ := ih _ hI
    exact ⟨e :: es, hr.cons he⟩

/-! ## Histories -/

/-- Every entry of a history meets a condition on the entries before it. -/
def Throughout {α : Type*} (P : List α → α → Prop) (h : List α) : Prop :=
  ∀ pre a post, h = pre ++ a :: post → P pre a

namespace Throughout

variable {α : Type*} {P : List α → α → Prop} {h : List α} {a : α}

theorem nil : Throughout P [] := by
  intro pre a post he
  simp at he

theorem concat (hh : Throughout P h) (ha : P h a) : Throughout P (h ++ [a]) := by
  intro pre b post he
  rcases List.eq_nil_or_concat post with rfl | ⟨post, c, rfl⟩
  · obtain ⟨rfl, hb⟩ := List.append_inj' he rfl
    obtain rfl : a = b := by simpa using hb
    exact ha
  · have he' : h ++ [a] = (pre ++ b :: post) ++ [c] := by simpa using he
    exact hh pre b post (List.append_inj' he' rfl).1

theorem concat_iff : Throughout P (h ++ [a]) ↔ Throughout P h ∧ P h a := by
  constructor
  · intro hh
    refine ⟨fun pre b post he => hh pre b (post ++ [a]) ?_, hh h a [] rfl⟩
    rw [he, List.append_assoc, List.cons_append]
  · intro hh
    exact hh.1.concat hh.2

/-- Entries that meet the condition after any history may follow. -/
theorem append {as : List α} (hh : Throughout P h) (has : ∀ a ∈ as, ∀ pre, P pre a) :
    Throughout P (h ++ as) := by
  induction as generalizing h with
  | nil => simpa using hh
  | cons a as ih =>
    rw [List.append_cons]
    exact ih (hh.concat (has a (by simp) h)) fun b hb => has b (by simp [hb])

end Throughout

end WebTester.Transition
