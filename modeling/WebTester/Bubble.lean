import Mathlib.Data.Int.Notation
import Mathlib.Data.List.Perm.Basic
import Mathlib.Data.Set.Defs
import Mathlib.Order.Iterate

/-!
# Bubble sort by a comparator

A comparator answers with a sign. A pass makes a given number of comparisons of neighbours, carries
the greater one on, and does not look at what lies behind the last of them. Each pass settles one
more element at the end of what it sees.
-/
namespace WebTester.Bubble

variable {α : Type*} (cmp : α → α → ℤ)

/-- On these elements the sign of the comparator is that of a total preorder. -/
structure PreorderOn (s : Set α) : Prop where
  swap : ∀ a ∈ s, ∀ b ∈ s, (cmp b a).sign = -(cmp a b).sign
  trans : ∀ a ∈ s, ∀ b ∈ s, ∀ c ∈ s, cmp a b ≤ 0 → cmp b c ≤ 0 → cmp a c ≤ 0

namespace PreorderOn

variable {cmp} {s t : Set α} {a b c : α}

lemma mono (h : PreorderOn cmp s) (hst : ∀ a ∈ t, a ∈ s) : PreorderOn cmp t where
  swap a ha b hb := h.swap a (hst a ha) b (hst b hb)
  trans a ha b hb c hc := h.trans a (hst a ha) b (hst b hb) c (hst c hc)

lemma total (h : PreorderOn cmp s) (ha : a ∈ s) (hb : b ∈ s) (hgt : 0 < cmp a b) :
    cmp b a ≤ 0 := by
  have hswap := h.swap a ha b hb
  rw [Int.sign_eq_one_of_pos hgt] at hswap
  by_contra hle
  rw [Int.sign_eq_one_of_pos (by omega)] at hswap
  omega

lemma eq_zero_symm (h : PreorderOn cmp s) (ha : a ∈ s) (hb : b ∈ s) (heq : cmp a b = 0) :
    cmp b a = 0 := by
  have hswap := h.swap a ha b hb
  rw [heq, Int.sign_zero, Int.neg_zero, Int.sign_eq_zero_iff_zero] at hswap
  exact hswap

/-- Elements that tie with one element are not swapped. -/
lemma not_gt_of_ties (h : PreorderOn cmp s) (ha : a ∈ s) (hb : b ∈ s) (hc : c ∈ s)
    (hac : cmp a c = 0) (hbc : cmp b c = 0) : ¬0 < cmp a b := by
  have hcb := h.eq_zero_symm hb hc hbc
  have hle := h.trans a ha c hc b hb hac.le hcb.le
  omega

end PreorderOn

/-- One pass of so many comparisons. -/
def pass : ℕ → List α → List α
  | n + 1, a :: b :: l => if 0 < cmp a b then b :: pass n (a :: l) else a :: pass n (b :: l)
  | _, l => l

/-- What a pass through these elements leaves, and the one it carries in the end. -/
def carry : α → List α → List α × α
  | a, [] => ([], a)
  | a, b :: l =>
    if 0 < cmp a b then (b :: (carry a l).1, (carry a l).2) else (a :: (carry b l).1, (carry b l).2)

/-- The first so many elements are sorted, by as many passes. -/
def sort (n : ℕ) (l : List α) : List α := (pass cmp (n - 1))^[n] l

variable {cmp} {a b : α} {l l₁ l₂ front settled : List α} {n : ℕ}

@[simp] lemma pass_zero (l : List α) : pass cmp 0 l = l := by
  cases l <;> rfl

lemma pass_cons_cons (n : ℕ) (a b : α) (l : List α) : pass cmp (n + 1) (a :: b :: l) =
    if 0 < cmp a b then b :: pass cmp n (a :: l) else a :: pass cmp n (b :: l) := rfl

/-! ## What one pass does -/

lemma pass_perm (n : ℕ) (l : List α) : (pass cmp n l).Perm l := by
  fun_induction pass cmp n l with
  | case1 n a b l hgt ih => exact (ih.cons b).trans (List.Perm.swap a b l)
  | case2 n a b l hgt ih => exact ih.cons a
  | case3 => exact List.Perm.refl _

/-- Elements of which no two are swapped keep their order. -/
lemma filter_pass (p : α → Bool) (n : ℕ) (l : List α)
    (hp : ∀ a ∈ l, ∀ b ∈ l, p a → p b → ¬0 < cmp a b) : (pass cmp n l).filter p = l.filter p := by
  fun_induction pass cmp n l with
  | case1 n a b l hgt ih =>
    have hnot : ¬(p a ∧ p b) := fun h => hp a (by simp) b (by simp) h.1 h.2 hgt
    have hrest := ih fun x hx y hy => hp x (by grind) y (by grind)
    rw [List.filter_cons, hrest]
    grind
  | case2 n a b l hgt ih =>
    have hrest := ih fun x hx y hy => hp x (by grind) y (by grind)
    rw [List.filter_cons, hrest]
    exact List.filter_cons.symm
  | case3 => rfl

/-- The elements behind those that a pass compares stay where they are. -/
lemma pass_append (h : n < l₁.length) : pass cmp n (l₁ ++ l₂) = pass cmp n l₁ ++ l₂ := by
  induction n generalizing l₁ with
  | zero => simp
  | succ n ih =>
    match l₁ with
    | [] => simp at h
    | [a] => simp at h
    | a :: b :: l =>
      rw [List.length_cons, List.length_cons] at h
      have hrest : ∀ c, pass cmp n (c :: (l ++ l₂)) = pass cmp n (c :: l) ++ l₂ := by
        intro c
        exact @ih (c :: l) (by rw [List.length_cons]; omega)
      rw [List.cons_append, List.cons_append, pass_cons_cons, pass_cons_cons, hrest, hrest]
      split <;> rfl

lemma pass_sorted (h : l.Pairwise fun a b => cmp a b ≤ 0) (n : ℕ) : pass cmp n l = l := by
  fun_induction pass cmp n l with
  | case1 n a b l hgt ih =>
    have hle := List.rel_of_pairwise_cons h List.mem_cons_self
    omega
  | case2 n a b l hgt ih => rw [ih h.of_cons]
  | case3 => rfl

lemma pass_carry (a : α) (l₁ l₂ : List α) (n : ℕ) : pass cmp (l₁.length + n) (a :: (l₁ ++ l₂)) =
    (carry cmp a l₁).1 ++ pass cmp n ((carry cmp a l₁).2 :: l₂) := by
  induction l₁ generalizing a with
  | nil => simp [carry]
  | cons b l₁ ih =>
    have hlength : (b :: l₁).length + n = l₁.length + n + 1 := by
      rw [List.length_cons]
      omega
    rw [hlength, List.cons_append, pass_cons_cons, ih, ih, carry]
    split <;> rfl

lemma carry_perm (a : α) (l : List α) :
    ((carry cmp a l).1 ++ [(carry cmp a l).2]).Perm (a :: l) := by
  have hpass := @pass_carry _ cmp a l [] 0
  rw [List.append_nil, pass_zero] at hpass
  rw [← hpass]
  exact pass_perm _ _

lemma length_carry (a : α) (l : List α) : (carry cmp a l).1.length = l.length := by
  have hlength := (@carry_perm _ cmp a l).length_eq
  rw [List.length_append, List.length_singleton, List.length_cons] at hlength
  omega

/-- The element that is carried to the end is a greatest one. -/
lemma le_carry (a : α) (l : List α) (h : PreorderOn cmp {b | b ∈ a :: l}) :
    ∀ b ∈ a :: l, cmp b (carry cmp a l).2 ≤ 0 := by
  induction l generalizing a with
  | nil =>
    intro b hb
    obtain rfl := List.mem_singleton.1 hb
    have hswap := h.swap b hb b hb
    show cmp b b ≤ 0
    by_contra hgt
    rw [Int.sign_eq_one_of_pos (by omega)] at hswap
    omega
  | cons b l ih =>
    have hmem : ∀ c, (carry cmp c l).2 ∈ c :: l := by
      intro c
      exact (@carry_perm _ cmp c l).mem_iff.1 (by simp)
    intro c hc
    rw [carry]
    split
    · next hgt =>
      have hle := ih a (h.mono fun d hd => by grind)
      obtain rfl | hc := List.mem_cons.1 hc
      · exact hle c (by simp)
      · obtain rfl | hc := List.mem_cons.1 hc
        · have hca := h.total (by grind) (by grind) hgt
          exact h.trans c (by grind) a (by grind) _ (by grind) hca (hle a (by simp))
        · exact hle c (by simp [hc])
    · next hgt =>
      have hle := ih b (h.mono fun d hd => by grind)
      obtain rfl | hc := List.mem_cons.1 hc
      · have hcb : cmp c b ≤ 0 := by omega
        exact h.trans c (by grind) b (by grind) _ (by grind) hcb (hle b (by simp))
      · exact hle c hc

/-! ## Settled ends -/

/-- All but so many elements are sorted at the end of the list, with none in front greater. -/
def Settled (cmp : α → α → ℤ) (unsettled : ℕ) (l : List α) : Prop :=
  ∃ front settled, l = front ++ settled ∧ front.length ≤ unsettled ∧
    (settled.Pairwise fun a b => cmp a b ≤ 0) ∧ ∀ a ∈ front, ∀ b ∈ settled, cmp a b ≤ 0

lemma Settled.pass (h : Settled cmp n l) (hcmp : PreorderOn cmp {a | a ∈ l}) {k : ℕ}
    (hk : l.length ≤ k + 1) : Settled cmp (n - 1) (pass cmp k l) := by
  obtain ⟨front, settled, rfl, hlength, hsorted, hcross⟩ := h
  cases front with
  | nil =>
    rw [List.nil_append, pass_sorted hsorted]
    exact ⟨[], settled, rfl, by simp, hsorted, by simp⟩
  | cons a front =>
    have hperm := @carry_perm _ cmp a front
    have hmem : ∀ b ∈ (carry cmp a front).1 ++ [(carry cmp a front).2], b ∈ a :: front :=
      fun b => hperm.mem_iff.1
    have hgreatest := le_carry a front (hcmp.mono fun b hb => by grind)
    have hsettled : ((carry cmp a front).2 :: settled).Pairwise fun a b => cmp a b ≤ 0 :=
      List.pairwise_cons.2 ⟨hcross _ (hmem _ (by simp)), hsorted⟩
    obtain ⟨m, rfl⟩ : ∃ m, k = front.length + m :=
      ⟨k - front.length, by rw [List.length_append, List.length_cons] at hk; omega⟩
    rw [List.cons_append, pass_carry, pass_sorted hsettled]
    refine ⟨_, _, rfl, ?_, hsettled, ?_⟩
    · rw [List.length_cons] at hlength
      rw [length_carry]
      omega
    · intro b hb c hc
      have hb := hmem b (by simp [hb])
      obtain rfl | hc := List.mem_cons.1 hc
      · exact hgreatest b hb
      · exact hcross b hb c hc

/-! ## All passes -/

lemma iterate_pass_perm (m n : ℕ) (l : List α) : ((pass cmp m)^[n] l).Perm l := by
  induction n generalizing l with
  | zero => exact List.Perm.refl l
  | succ n ih =>
    rw [Function.iterate_succ_apply]
    exact (ih _).trans (pass_perm m l)

lemma sort_perm (n : ℕ) (l : List α) : (sort cmp n l).Perm l := iterate_pass_perm _ _ l

/-- Elements of which no two are swapped keep their order. -/
lemma filter_sort (p : α → Bool) (n : ℕ) (l : List α)
    (hp : ∀ a ∈ l, ∀ b ∈ l, p a → p b → ¬0 < cmp a b) : (sort cmp n l).filter p = l.filter p := by
  unfold sort
  generalize n - 1 = m
  induction n generalizing l with
  | zero => rfl
  | succ n ih =>
    have hmem : ∀ a ∈ pass cmp m l, a ∈ l := fun a => (pass_perm m l).mem_iff.1
    rw [Function.iterate_succ_apply, ih _ fun a ha b hb => hp a (hmem a ha) b (hmem b hb),
      filter_pass p m l hp]

lemma iterate_pass_append {m : ℕ} (h : m < l₁.length) (n : ℕ) :
    (pass cmp m)^[n] (l₁ ++ l₂) = (pass cmp m)^[n] l₁ ++ l₂ := by
  induction n generalizing l₁ with
  | zero => rfl
  | succ n ih =>
    rw [Function.iterate_succ_apply, Function.iterate_succ_apply, pass_append h, ih]
    rwa [(pass_perm m l₁).length_eq]

/-- Only the first so many elements are looked at. -/
lemma sort_append (h : n ≤ l₁.length) : sort cmp n (l₁ ++ l₂) = sort cmp n l₁ ++ l₂ := by
  cases n with
  | zero => rfl
  | succ n => exact iterate_pass_append h (n + 1)

section map

variable {β : Type*} (f : β → α)

lemma map_pass (n : ℕ) (l : List β) :
    (pass (fun x y => cmp (f x) (f y)) n l).map f = pass cmp n (l.map f) := by
  fun_induction pass (fun x y => cmp (f x) (f y)) n l with
  | case1 n a b l hgt ih =>
    rw [List.map_cons, ih]
    exact (if_pos hgt).symm
  | case2 n a b l hgt ih =>
    rw [List.map_cons, ih]
    exact (if_neg hgt).symm
  | case3 n l h =>
    match n, l with
    | 0, l => simp
    | n + 1, [] => rfl
    | n + 1, [a] => rfl
    | n + 1, a :: b :: l => exact absurd rfl (h n a b l rfl)

/-- A comparator that sees only a part sorts the parts. -/
lemma map_sort (n : ℕ) (l : List β) :
    (sort (fun x y => cmp (f x) (f y)) n l).map f = sort cmp n (l.map f) := by
  unfold sort
  generalize n - 1 = m
  induction n generalizing l with
  | zero => rfl
  | succ n ih => rw [Function.iterate_succ_apply, Function.iterate_succ_apply, ih, map_pass]

end map

/-- As many passes as there are elements settle all of them. -/
lemma sorted_sort (h : PreorderOn cmp {a | a ∈ l}) :
    (sort cmp l.length l).Pairwise fun a b => cmp a b ≤ 0 := by
  have hsettled : ∀ k, Settled cmp (l.length - k) ((pass cmp (l.length - 1))^[k] l) := by
    intro k
    induction k with
    | zero => exact ⟨l, [], by simp, by simp, by simp, by simp⟩
    | succ k ih =>
      have hperm := @iterate_pass_perm _ cmp (l.length - 1) k l
      rw [Function.iterate_succ_apply', ← Nat.sub_sub]
      refine ih.pass (h.mono fun a ha => hperm.mem_iff.1 ha) ?_
      rw [hperm.length_eq]
      omega
  obtain ⟨front, settled, heq, hlength, hsorted, -⟩ := hsettled l.length
  have hnil : front = [] := List.length_eq_zero_iff.1 (by omega)
  rw [hnil, List.nil_append] at heq
  rw [sort, heq]
  exact hsorted

/-- Two sorted orders of elements that do not tie are the same. -/
lemma eq_of_perm (hperm : l₁.Perm l₂) (h₁ : l₁.Pairwise fun a b => cmp a b ≤ 0)
    (h₂ : l₂.Pairwise fun a b => cmp a b ≤ 0)
    (hanti : ∀ a ∈ l₁, ∀ b ∈ l₁, cmp a b ≤ 0 → cmp b a ≤ 0 → a = b) : l₁ = l₂ := by
  refine List.Perm.eq_of_pairwise ?_ h₁ h₂ hperm
  intro a b ha hb hab hba
  exact hanti a ha b (hperm.mem_iff.2 hb) hab hba

end WebTester.Bubble
