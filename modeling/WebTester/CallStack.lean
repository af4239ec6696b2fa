import Mathlib.Order.Basic

/-!
# The stack under a recursion

Every call of a function takes its local variables from the stack of the process, and a recursion
that needs more ends the process. How many bytes a call takes is up to the compiler; it is not less
than what the variables need.
-/
namespace WebTester

/-- The bytes that are there, and the bytes that a call takes. -/
structure CallStack where
  size : ℕ
  frame : ℕ
  deriving DecidableEq, Repr

/-- How many calls can be in one another. -/
def CallStack.calls (s : CallStack) : ℕ := s.size / s.frame

end WebTester
