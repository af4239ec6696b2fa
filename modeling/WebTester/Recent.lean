import Mathlib.Data.List.Basic

/-!
# The most recent entries

A history lists its entries from the most recent one on. A bounded list follows it when it
has the most recent entries, and either it is full or the entries it lacks are spent.
Questions about the `n`-th entry that no spent entry answers have the same answer in both.
-/
namespace WebTester.Recent

variable {α : Type*} {n : ℕ} {spent spent' : α → Prop} {l hist : List α} {x : α}

/-- The list has the most recent entries of the history, and what it lacks does not matter
any more. -/
def Tracks (n : ℕ) (spent : α → Prop) (l hist : List α) : Prop :=
  ∃ rest, hist = l ++ rest ∧ l.length ≤ n ∧ (l.length < n → ∀ x ∈ rest, spent x)

namespace Tracks

theorem nil (h : ∀ x ∈ hist, spent x) : Tracks n spent [] hist :=
  ⟨hist, rfl, Nat.zero_le n, fun _ => h⟩

theorem length_le (h : Tracks n spent l hist) : l.length ≤ n := by
  obtain ⟨-, -, hle, -⟩ := h
  exact hle

theorem mono (h : Tracks n spent l hist) (hspent : ∀ x, spent x → spent' x) :
    Tracks n spent' l hist := by
  obtain ⟨rest, heq, hle, hrest⟩ := h
  exact ⟨rest, heq, hle, fun hlt x hx => hspent x (hrest hlt x hx)⟩

/-- A new entry pushes the oldest one out of a full list. -/
theorem push (h : Tracks n spent l hist) (x : α) :
    Tracks n spent ((x :: l).take n) (x :: hist) := by
  obtain ⟨rest, rfl, hle, hrest⟩ := h
  refine ⟨(x :: l).drop n ++ rest, ?_, ?_, ?_⟩
  · rw [← List.append_assoc, List.take_append_drop, List.cons_append]
  · rw [List.length_take]
    omega
  · intro hlt y hy
    rw [List.length_take, List.length_cons] at hlt
    have hdrop : (x :: l).drop n = [] := by
      rw [List.drop_eq_nil_iff, List.length_cons]
      omega
    rw [hdrop, List.nil_append] at hy
    exact hrest (by omega) y hy

/-- What is asked of the oldest entry of a full list is asked of that entry of the history. -/
theorem getElem?_iff (h : Tracks n spent l hist) (hn : 0 < n) {p : α → Prop}
    (hp : ∀ x, spent x → ¬p x) :
    (∃ x, l[n - 1]? = some x ∧ p x) ↔ ∃ x, hist[n - 1]? = some x ∧ p x := by
  obtain ⟨rest, rfl, hle, hrest⟩ := h
  by_cases hfull : l.length = n
  · rw [List.getElem?_append_left (by omega)]
  · have hl : l[n - 1]? = none := List.getElem?_eq_none (by omega)
    rw [hl, List.getElem?_append_right (by omega)]
    refine iff_of_false (by simp) ?_
    rintro ⟨x, hx, hpx⟩
    exact hp x (hrest (by omega) x (List.mem_of_getElem? hx)) hpx

end Tracks

end WebTester.Recent
