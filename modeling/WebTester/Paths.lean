import Mathlib.Data.List.Basic
import Mathlib.Data.List.Induction

/-!
# Lexical paths

The parts of a path are names and steps to the parent. Resolving a path follows its parts from the
root without looking at the file system; at the root a step to the parent leads nowhere. What a
path resolves to lies inside a directory exactly when the path enters the directory at some point
and what comes then never leaves it.
-/
namespace WebTester.Paths

inductive Part (α : Type*)
  | name (a : α)
  | parent
  deriving DecidableEq

variable {α : Type*}

def Part.isName : Part α → Bool
  | .name _ => true
  | .parent => false

/-- Follows one part. -/
def step (st : List α) : Part α → List α
  | .name a => st ++ [a]
  | .parent => st.dropLast

/-- The names from the root to what the parts lead to. -/
def resolve (ps : List (Part α)) : List α := ps.foldl step []

def ups (ps : List (Part α)) : ℕ := ps.countP fun p => !p.isName

def downs (ps : List (Part α)) : ℕ := ps.countP Part.isName

/-- At no point there were more steps to the parent than names. -/
def Stays (ps : List (Part α)) : Prop := ∀ pre, pre <+: ps → ups pre ≤ downs pre

@[simp] theorem resolve_nil : resolve ([] : List (Part α)) = [] := rfl

@[simp] theorem resolve_concat (ps : List (Part α)) (p : Part α) :
    resolve (ps ++ [p]) = step (resolve ps) p := by
  simp [resolve]

theorem stays_nil : Stays ([] : List (Part α)) := by
  intro pre h
  rw [List.prefix_nil.1 h]
  exact Nat.le_refl _

theorem Stays.concat_iff {ps : List (Part α)} {p : Part α} :
    Stays (ps ++ [p]) ↔ Stays ps ∧ ups (ps ++ [p]) ≤ downs (ps ++ [p]) := by
  constructor
  · intro h
    exact ⟨fun pre hpre => h pre (hpre.trans (List.prefix_append _ _)), h _ (List.prefix_refl _)⟩
  · rintro ⟨h, hlast⟩ pre hpre
    rcases List.prefix_concat_iff.1 hpre with rfl | hpre
    · exact hlast
    · exact h pre hpre

/-- Parts that stay leave the start untouched, and as many names behind it as there are more names
than steps to the parent. -/
theorem exists_foldl_of_stays {d : List α} {ps : List (Part α)} (h : Stays ps) :
    ∃ e, ps.foldl step d = d ++ e ∧ e.length + ups ps = downs ps := by
  induction ps using List.reverseRecOn with
  | nil => exact ⟨[], by simp [ups, downs]⟩
  | append_singleton ps p ih =>
    obtain ⟨hps, hle⟩ := Stays.concat_iff.1 h
    obtain ⟨e, he, hcount⟩ := ih hps
    cases p with
    | name a =>
      refine ⟨e ++ [a], by simp [he, step], ?_⟩
      simp [ups, downs, Part.isName] at hcount ⊢
      omega
    | parent =>
      have hpos : e ≠ [] := by
        rintro rfl
        simp [ups, downs, Part.isName] at hcount hle
        omega
      refine ⟨e.dropLast, by simp [he, step, List.dropLast_append_of_ne_nil hpos], ?_⟩
      have hlength := List.length_pos_iff.2 hpos
      simp [ups, downs, Part.isName] at hcount ⊢
      omega

/-- A place below a directory is entered from the directory or from below it. -/
theorem prefix_of_prefix_step {d st : List α} {p : Part α} (h : d <+: step st p)
    (hne : step st p ≠ d) : d <+: st := by
  cases p with
  | name a =>
    rcases List.prefix_concat_iff.1 h with heq | h
    · exact absurd heq.symm hne
    · exact h
  | parent => exact h.trans (List.dropLast_prefix _)

/-- What a path leads to is inside a directory exactly when the path enters it and stays there. -/
theorem prefix_resolve_iff {d : List α} {ps : List (Part α)} :
    d <+: resolve ps ↔ ∃ a b, ps = a ++ b ∧ resolve a = d ∧ Stays b := by
  constructor
  · intro h
    induction ps using List.reverseRecOn with
    | nil => exact ⟨[], [], rfl, (List.prefix_nil.1 h).symm, stays_nil⟩
    | append_singleton ps p ih =>
      by_cases heq : resolve (ps ++ [p]) = d
      · exact ⟨ps ++ [p], [], by simp, heq, stays_nil⟩
      · rw [resolve_concat] at h heq
        obtain ⟨a, b, rfl, ha, hb⟩ := ih (prefix_of_prefix_step h heq)
        refine ⟨a, b ++ [p], by simp, ha, Stays.concat_iff.2 ⟨hb, ?_⟩⟩
        obtain ⟨e, he, hcount⟩ := exists_foldl_of_stays (d := d) hb
        have hresolve : resolve (a ++ b) = d ++ e := by
          rw [resolve, List.foldl_append, ← he, ← ha, resolve]
        cases p with
        | name c =>
          simp [ups, downs, Part.isName] at hcount ⊢
          omega
        | parent =>
          have hpos : e ≠ [] := by
            rintro rfl
            rw [hresolve, List.append_nil] at h heq
            exact heq ((List.dropLast_prefix d).eq_of_length_le h.length_le)
          have hlength := List.length_pos_iff.2 hpos
          simp [ups, downs, Part.isName] at hcount ⊢
          omega
  · rintro ⟨a, b, rfl, rfl, hb⟩
    obtain ⟨e, he, -⟩ := exists_foldl_of_stays (d := resolve a) hb
    refine ⟨e, ?_⟩
    rw [← he, resolve, resolve, List.foldl_append]

/-! ## Texts -/

/-- What stands between two slashes; nothing or a dot leads nowhere. -/
def part (text : List Char) : Option (Part (List Char)) :=
  if text = [] ∨ text = ['.'] then none
  else if text = ['.', '.'] then some .parent
  else some (.name text)

def parts (path : List Char) : List (Part (List Char)) := (path.splitOn '/').filterMap part

end WebTester.Paths
