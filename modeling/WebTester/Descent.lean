import Mathlib.Data.Finset.Card
import Mathlib.Logic.Relation

/-!
# Recursion along the edges of a graph

A recursion calls itself along the edges of a graph, and only from finitely many places. It ends
everywhere exactly when no way from its start goes round in a circle.
-/
namespace WebTester.Descent
open Relation

variable {α : Type*} {edge : α → α → Prop} {x y : α}

section Measure

variable {Q : ℕ → α → Prop} (hzero : ∀ x, ¬Q 0 x)
  (hstep : ∀ n x y, Q (n + 1) x → edge x y → Q n y) {n : ℕ}
include hzero hstep

/-- A bound on the depth goes down along every edge. -/
lemma exists_lt_of_transGen (hx : Q n x) (hxy : TransGen edge x y) : ∃ m < n, Q m y := by
  have hedge : ∀ {n x y}, Q n x → edge x y → ∃ m < n, Q m y := by
    intro n x y hx hxy
    cases n with
    | zero => exact absurd hx (hzero x)
    | succ n => exact ⟨n, n.lt_succ_self, hstep n x y hx hxy⟩
  induction hxy with
  | single hxy => exact hedge hx hxy
  | tail _ hyz ih =>
    obtain ⟨m, hm, hy⟩ := ih
    obtain ⟨k, hk, hz⟩ := hedge hy hyz
    exact ⟨k, hk.trans hm, hz⟩

lemma exists_of_reflTransGen (hx : Q n x) (hxy : ReflTransGen edge x y) : ∃ m, Q m y := by
  rcases reflTransGen_iff_eq_or_transGen.1 hxy with rfl | hxy
  · exact ⟨n, hx⟩
  · obtain ⟨m, -, hy⟩ := exists_lt_of_transGen hzero hstep hx hxy
    exact ⟨m, hy⟩

/-- Where the depth is bounded there is no circle. -/
theorem not_transGen_self (hx : Q n x) : ¬TransGen edge x x := by
  intro hcycle
  induction n using Nat.strong_induction_on with
  | _ n ih =>
    obtain ⟨m, hm, hx⟩ := exists_lt_of_transGen hzero hstep hx hcycle
    exact ih m hm hx

end Measure

section Rank

variable (edge) (nodes : Finset α)

open Classical in
/-- How many of the nodes can be reached by at least one edge. -/
noncomputable def rank (x : α) : ℕ := (nodes.filter fun y => TransGen edge x y).card

variable {edge nodes}

/-- Without circles every edge to one of the nodes leaves fewer of them. -/
theorem rank_lt (hxy : edge x y) (hy : y ∈ nodes) (hcycle : ¬TransGen edge y y) :
    rank edge nodes y < rank edge nodes x := by
  classical
  refine Finset.card_lt_card (Finset.ssubset_iff_of_subset ?_ |>.2 ⟨y, ?_, ?_⟩)
  · intro z hz
    obtain ⟨hnode, hyz⟩ := Finset.mem_filter.1 hz
    exact Finset.mem_filter.2 ⟨hnode, .head hxy hyz⟩
  · exact Finset.mem_filter.2 ⟨hy, .single hxy⟩
  · intro hz
    exact hcycle (Finset.mem_filter.1 hz).2

end Rank

end WebTester.Descent
