import Mathlib.Data.Fintype.Card
import Mathlib.Data.Finset.Card
import Mathlib.Logic.Function.Basic

/-!
# Tables of slots

A table has a fixed number of slots, and a test tells which of them are taken. The number of taken
slots follows every write to a slot; there is a free slot as long as it is below the size.
-/
namespace WebTester.Slots

variable {α : Type*} {n : ℕ} {p : α → Bool} {f : Fin n → α} {i : Fin n} {a : α}

/-- The number of slots that are taken. -/
def count (p : α → Bool) (f : Fin n → α) : ℕ :=
  (Finset.univ.filter fun i => p (f i) = true).card

theorem count_le (p : α → Bool) (f : Fin n → α) : count p f ≤ n := by
  have h := Finset.card_filter_le (Finset.univ : Finset (Fin n)) fun i => p (f i) = true
  rwa [Finset.card_univ, Fintype.card_fin] at h

theorem count_lt_iff : count p f < n ↔ ∃ i, p (f i) = false := by
  have hcard : (Finset.univ : Finset (Fin n)).card = n := Finset.card_fin n
  constructor
  · intro h
    by_contra hall
    push Not at hall
    have hfull : (Finset.univ.filter fun i => p (f i) = true) = Finset.univ :=
      Finset.filter_true_of_mem fun i _ => by simpa using hall i
    rw [count, hfull, hcard] at h
    exact lt_irrefl n h
  · rintro ⟨i, hi⟩
    have hlt := Finset.card_lt_card (s := Finset.univ.filter fun i => p (f i) = true)
      (t := Finset.univ) (Finset.filter_ssubset.2 ⟨i, Finset.mem_univ i, by simp [hi]⟩)
    rwa [hcard] at hlt

/-- The other slots that are taken, and one more if what is written is. -/
theorem count_update (p : α → Bool) (f : Fin n → α) (i : Fin n) (a : α) :
    count p (Function.update f i a) =
      ((Finset.univ.filter fun j => p (f j) = true).erase i).card + (p a).toNat := by
  have herase : (Finset.univ.filter fun j => p (Function.update f i a j) = true).erase i =
      (Finset.univ.filter fun j => p (f j) = true).erase i := by
    ext j
    by_cases hj : j = i
    · simp [hj]
    · simp [hj]
  rw [count, ← herase]
  cases ha : p a with
  | false =>
    have hi : i ∉ Finset.univ.filter fun j => p (Function.update f i a j) = true := by
      simp [ha]
    rw [Finset.erase_eq_of_notMem hi]
    rfl
  | true =>
    have hi : i ∈ Finset.univ.filter fun j => p (Function.update f i a j) = true := by
      simp [ha]
    exact (Finset.card_erase_add_one hi).symm

theorem mem_taken : i ∈ (Finset.univ.filter fun j => p (f j) = true) ↔ p (f i) = true := by
  simp only [Finset.mem_filter, Finset.mem_univ, true_and]

theorem notMem_taken (h : p (f i) = false) :
    i ∉ Finset.univ.filter fun j => p (f j) = true := by
  rw [mem_taken, h]
  exact Bool.false_ne_true

/-- A free slot is taken. -/
theorem count_update_taken (hi : p (f i) = false) (ha : p a = true) :
    count p (Function.update f i a) = count p f + 1 := by
  rw [count_update, Finset.erase_eq_of_notMem (notMem_taken hi), ha]
  rfl

/-- A slot that was taken becomes free. -/
theorem count_update_free (hi : p (f i) = true) (ha : p a = false) :
    count p (Function.update f i a) + 1 = count p f := by
  rw [count_update, ha]
  exact Finset.card_erase_add_one (mem_taken.2 hi)

/-- A slot stays as it was. -/
theorem count_update_same (h : p a = p (f i)) :
    count p (Function.update f i a) = count p f := by
  cases hi : p (f i) with
  | false =>
    rw [count_update, Finset.erase_eq_of_notMem (notMem_taken hi), h, hi]
    rfl
  | true =>
    rw [count_update, h, hi]
    exact Finset.card_erase_add_one (mem_taken.2 hi)

end WebTester.Slots
