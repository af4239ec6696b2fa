import WebTester.CallStack
import WebTester.Hive

/-!
# Arrays in arrays

`flexval_unserialize_entry` has three buffers of 64 KiB and calls itself for an array in an array.
-/
namespace WebTester.Hive
open CString Flexval

variable {F : Type} (D : Doubles F)

/-- How many calls of `flexval_unserialize_entry` are in one another while `unserialize` reads the
elements of an array. After an error there are no more. -/
def entryCalls : ℕ → CStr → ℕ
  | 0, _ => 0
  | fuel + 1, data =>
    match unserializeIterator data with
    | none => 0
    | some none => 0
    | some (some (t, rest)) =>
      if t.array then
        max (entryCalls fuel t.text + 1)
          (if (unserialize D fuel t.text).2 then 0 else entryCalls fuel rest)
      else entryCalls fuel rest

/-- The calls for the value of a token. -/
def tokenCalls (t : Token) : ℕ :=
  if t.array && !t.string then entryCalls D (t.text.length + 1) t.text + 1 else 0

end WebTester.Hive
