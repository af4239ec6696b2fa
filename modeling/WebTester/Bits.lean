import Mathlib.Data.Nat.Notation

/-!
# Words of flags

`test` is how C reads a flag: the conjunction with the mask is not zero.
-/
namespace WebTester.Bits

variable {w : ℕ} {a b f g : BitVec w}

/-- Some bit of the mask is set. -/
def test (a f : BitVec w) : Bool := a &&& f != 0#w

theorem test_iff : test a f = true ↔ a &&& f ≠ 0#w := by
  simp [test]

theorem test_eq_false : test a f = false ↔ a &&& f = 0#w := by
  simp [test]

@[simp] theorem test_or : test (a ||| b) f = (test a f || test b f) := by
  rw [Bool.eq_iff_iff, Bool.or_eq_true, test_iff, test_iff, test_iff,
    BitVec.and_or_distrib_right, Ne, BitVec.or_eq_zero_iff, Decidable.not_and_iff_or_not]

theorem test_or_right : test a (f ||| g) = (test a f || test a g) := by
  rw [Bool.eq_iff_iff, Bool.or_eq_true, test_iff, test_iff, test_iff,
    BitVec.and_or_distrib_left, Ne, BitVec.or_eq_zero_iff, Decidable.not_and_iff_or_not]

/-- Masking first is testing the common bits. -/
theorem test_and : test (a &&& g) f = test a (g &&& f) := by
  rw [Bool.eq_iff_iff, test_iff, test_iff, BitVec.and_assoc]

@[simp] theorem test_zero : test 0#w f = false := by
  rw [test_eq_false, BitVec.zero_and]

end WebTester.Bits
