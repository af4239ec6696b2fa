import WebTester.NumberText

/-!
# Flexible values

A `flex_value_t` keeps an integer, a real number and a text that are meant to say the same,
with a type that tells which of them was set. Setting a text that is no number leaves the
type as it was.

`double` is left open: what is used of it are the conversions and the printing.
-/
namespace WebTester.Flexval
open CString

/-- `%ld`. -/
def printLong (x : ℤ) : CStr := if x < 0 then '-' :: decimal x.natAbs else decimal x.natAbs

lemma notMem_printLong {c : Char} (hd : c.isDigit = false) (hm : c ≠ '-') (x : ℤ) :
    c ∉ printLong x := by
  have hdigits : c ∉ decimal x.natAbs := by
    intro hc
    rw [isDigit_of_mem_decimal hc] at hd
    cases hd
  unfold printLong
  split
  · rw [List.mem_cons, not_or]
    exact ⟨hm, hdigits⟩
  · exact hdigits

/-- What is used of `double`: the conversions from and to `long`, `flexval_atolf`, and
printing with a number of decimals. -/
structure Doubles (F : Type) where
  ofLong : ℤ → F
  toLong : F → ℤ
  flexvalAtolf : CStr → F
  print : ℕ → F → CStr

/-- `is_truth`. -/
def isTruth (s : CStr) : Bool :=
  if isNumber s then atol s ≠ 0
  else s.map Char.toUpper = "TRUE".toList || s.map Char.toUpper = "T".toList

/-- `FVT_UNDEFINED` to `FVT_ARRAY`. -/
inductive FvType
  | undefined
  | integer
  | string
  | float
  | array
  deriving DecidableEq, Repr

/-- `flex_value_t`. Freeing an array leaves its length. -/
structure FlexVal (F : Type) where
  integer : ℤ
  real : F
  pchar : CStr
  type : FvType
  length : ℕ
  data : List (FlexVal F)

namespace FlexVal

variable {F : Type} (D : Doubles F)

mutual

/-- `flexval_serialize`. -/
def serialize : FlexVal F → CStr
  | ⟨_, _, pchar, .undefined, _, _⟩ => '"' :: (pchar ++ ['"'])
  | ⟨_, _, pchar, .string, _, _⟩ => '"' :: (pchar ++ ['"'])
  | ⟨integer, _, _, .integer, _, _⟩ => printLong integer
  | ⟨_, real, _, .float, _, _⟩ => D.print 6 real
  | ⟨_, _, _, .array, length, data⟩ => '[' :: (serializeElems length data ++ [']'])

/-- The elements of an array, with blanks between them. -/
def serializeElems : ℕ → List (FlexVal F) → CStr
  | n + 1, v :: vs => v.serialize ++ ((if n = 0 then [] else [' ']) ++ serializeElems n vs)
  | 0, _ => []
  | _ + 1, [] => []

end

/-- The text of `flexval_set_string` goes through a buffer. -/
def bufferText (s : CStr) : CStr := s.take 65534

mutual

/-- `flexval_dup`. -/
def dup : FlexVal F → FlexVal F
  | ⟨integer, real, pchar, type, length, data⟩ =>
    if type = .array then ⟨integer, real, bufferText pchar, type, length, dupElems data⟩
    else ⟨integer, real, bufferText pchar, type, 0, []⟩

def dupElems : List (FlexVal F) → List (FlexVal F)
  | [] => []
  | v :: vs => v.dup :: dupElems vs

end

lemma length_dupElems (vs : List (FlexVal F)) : (dupElems vs).length = vs.length := by
  induction vs with
  | nil => rfl
  | cons v vs ih => rw [dupElems, List.length_cons, List.length_cons, ih]

/-- `drop_triling_zeroes`. -/
def dropTrilingZeroes (s : CStr) : CStr :=
  match (s.reverse.dropWhile (· = '0')) with
  | '.' :: r => r.reverse
  | ',' :: r => r.reverse
  | r => r.reverse

/-- The text of a real number. -/
def realText (x : F) : CStr := dropTrilingZeroes (D.print 12 x)

/-- `flexval_free_array`. Elements that were freed before are read again. -/
def freeArray (v : FlexVal F) : Option (FlexVal F) :=
  if v.length ≤ v.data.length then some { v with data := [] } else none

/-- `flexval_eval_from_string`. -/
def evalFromString (v : FlexVal F) : FlexVal F :=
  if isNumber v.pchar then { v with
    integer := flexvalAtol v.pchar, real := D.flexvalAtolf v.pchar, type := .string }
  else
    let truth : ℤ := if isTruth v.pchar then 1 else 0
    { v with integer := truth, real := D.ofLong truth }

/-- `flexval_set_string`. -/
def setString (s : CStr) (v : FlexVal F) : Option (FlexVal F) := do
  let v ← v.freeArray
  return evalFromString D { v with pchar := bufferText s }

/-- `flexval_set_int`. -/
def setInt (x : ℤ) (v : FlexVal F) : Option (FlexVal F) := do
  let v ← v.freeArray
  return { v with integer := x, real := D.ofLong x, pchar := printLong x, type := .integer }

/-- `flexval_set_float`. -/
def setFloat (x : F) (v : FlexVal F) : Option (FlexVal F) := do
  let v ← v.freeArray
  return { v with integer := D.toLong x, real := x, pchar := realText D x, type := .float }

/-- `flexval_set_array`. The pointers are counted by an `int`. -/
def setArray (vs : List (FlexVal F)) (v : FlexVal F) : Option (FlexVal F) := do
  let v ← setString D [] v
  if vs.length + 1 < 2 ^ 31 then
    return { v with
      pchar := "Array".toList, type := .array, length := vs.length, data := dupElems vs }
  else none

/-- `flexval_create`: an empty text, and then the type is reset. -/
def create : FlexVal F where
  integer := 0
  real := D.flexvalAtolf []
  pchar := []
  type := .undefined
  length := 0
  data := []

/-- Does `flexval_cmp` find no difference? -/
def same (a b : FlexVal F) : Bool :=
  if a.type ≠ b.type then false
  else if a.type = .undefined then true
  else if a.type ≠ .array then a.pchar = b.pchar
  else a.serialize D = b.serialize D

/-- `flexval_copy` into `dst`. -/
def copy (src dst : FlexVal F) : Option (FlexVal F) :=
  match src.type with
  | .undefined => some dst
  | .integer => setInt D src.integer dst
  | .float => setFloat D src.real dst
  | .string => setString D src.pchar dst
  | .array => some dst

end FlexVal

/-! ## What a setter does -/

section setters

variable {F : Type} {D : Doubles F} {v w : FlexVal F}

lemma freeArray_eq_some_iff :
    v.freeArray = some w ↔ v.length ≤ v.data.length ∧ { v with data := [] } = w := by
  unfold FlexVal.freeArray
  split_ifs with h
  · simp [h]
  · simp [h]

lemma setString_eq_some_iff {s : CStr} :
    FlexVal.setString D s v = some w ↔ v.length ≤ v.data.length ∧
      FlexVal.evalFromString D { v with pchar := FlexVal.bufferText s, data := [] } = w := by
  simp [FlexVal.setString, Option.bind_eq_some_iff, freeArray_eq_some_iff, and_assoc]

lemma setInt_eq_some_iff {x : ℤ} :
    FlexVal.setInt D x v = some w ↔ v.length ≤ v.data.length ∧
      (⟨x, D.ofLong x, printLong x, .integer, v.length, []⟩ : FlexVal F) = w := by
  simp [FlexVal.setInt, Option.bind_eq_some_iff, freeArray_eq_some_iff, and_assoc]

lemma setFloat_eq_some_iff {x : F} :
    FlexVal.setFloat D x v = some w ↔ v.length ≤ v.data.length ∧
      (⟨D.toLong x, x, FlexVal.realText D x, .float, v.length, []⟩ : FlexVal F) = w := by
  simp [FlexVal.setFloat, Option.bind_eq_some_iff, freeArray_eq_some_iff, and_assoc]

lemma type_evalFromString :
    (FlexVal.evalFromString D v).type = if isNumber v.pchar then .string else v.type := by
  unfold FlexVal.evalFromString
  split_ifs <;> rfl

lemma length_evalFromString : (FlexVal.evalFromString D v).length = v.length := by
  unfold FlexVal.evalFromString
  split_ifs <;> rfl

lemma pchar_evalFromString : (FlexVal.evalFromString D v).pchar = v.pchar := by
  unfold FlexVal.evalFromString
  split_ifs <;> rfl

end setters

end WebTester.Flexval
