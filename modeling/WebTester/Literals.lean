import Mathlib.Algebra.Order.Field.Rat
import Mathlib.Tactic.FieldSimp
import Mathlib.Tactic.Ring
import WebTester.FlexVal
import WebTester.HiveScan

/-!
# Literals of numbers

`flexval_atol` and `flexval_atolf` each read a sign and then a hexadecimal number, a character or
decimal digits. The arithmetic of `double` is that of rational numbers here.
-/
namespace WebTester.Literals
open CString Hive Flexval

/-- The loop of `flexval_atolf` over hexadecimal digits. -/
def readHex : ℚ → CStr → ℚ
  | val, [] => val
  | val, c :: cs => match hexDigit c with
    | some d => readHex (val * 16 + d) cs
    | none => val

/-- The loop of `flexval_atolf` over decimal digits and points: `val`, `total` and `decimal`. -/
def readDecimal : ℚ → ℤ → ℤ → CStr → ℚ × ℤ × ℤ
  | val, total, decimal, [] => (val, total, decimal)
  | val, total, decimal, c :: str =>
    if c = '.' then readDecimal val total total str
    else match decDigit c with
      | some d => readDecimal (val * 10 + d) (total + 1) decimal str
      | none => (val, total, decimal)

/-- The divisions after the loop. -/
def divideTens : ℕ → ℚ → ℚ
  | 0, val => val
  | n + 1, val => divideTens n (val / 10)

/-- `flexval_atolf`: the number, and the string afterwards. The mark of a hexadecimal number is not
passed over: two is added to its first character. -/
def flexvalAtolf (self : CStr) : ℚ × CStr :=
  let sign := (takeMinus self).1
  let str := (takeMinus self).2
  if hexMark str then
    let str := '2' :: str.tail
    (sign * readHex 0 str, self.take (self.length - str.length) ++ str)
  else if str.head? = some '\'' then (sign * schar (str.getD 1 nul), self)
  else
    let r := readDecimal 0 0 (-1) str
    if r.2.2 = -1 then (sign * r.1, self)
    else (sign * divideTens (r.2.1 - r.2.2).toNat r.1, self)

/-! ## Literals -/

/-- What may stand after the sign, with the digits or the character it is made of. -/
inductive Body
  | decimal (ds : CStr) (nonempty : ds ≠ []) (digits : ∀ c ∈ ds, c.isDigit)
  | hexadecimal (mark : Char) (ds : CStr) (marks : mark = 'x' ∨ mark = 'X') (nonempty : ds ≠ [])
    (digits : ∀ c ∈ ds, (hexDigit c).isSome)
  | character (c : Char) (nonzero : c ≠ nul)

namespace Body

def text : Body → CStr
  | decimal ds _ _ => ds
  | hexadecimal mark ds _ _ _ => '0' :: mark :: ds
  | character c _ => ['\'', c, '\'']

/-- The number of these digits. -/
def numberOf (base : ℕ) (digit : Char → Option ℕ) (ds : CStr) : ℕ :=
  ds.foldl (fun n c => n * base + (digit c).getD 0) 0

def value : Body → ℤ
  | decimal ds _ _ => numberOf 10 decDigit ds
  | hexadecimal _ ds _ _ _ => numberOf 16 hexDigit ds
  | character c _ => schar c

def isHexadecimal : Body → Bool
  | hexadecimal _ _ _ _ _ => true
  | decimal _ _ _ | character _ _ => false

end Body

/-- A literal with its optional sign. -/
structure Literal where
  negative : Bool
  body : Body

namespace Literal

def text (lit : Literal) : CStr := if lit.negative then '-' :: lit.body.text else lit.body.text

/-- The number that the literal denotes. -/
def value (lit : Literal) : ℤ := if lit.negative then -lit.body.value else lit.body.value

/-- Both functions return the number of the literal and leave the string as it is. -/
structure Agrees (lit : Literal) : Prop where
  integer : flexvalAtol lit.text = lit.value
  real : (flexvalAtolf lit.text).1 = lit.value
  unchanged : (flexvalAtolf lit.text).2 = lit.text

end Literal

/-! ## Reading digits -/

section digits

variable {base : ℕ} {digit : Char → Option ℕ} {ds : CStr}

lemma readLong_zero (hds : ∀ c ∈ ds, (digit c).isSome) :
    readLong base digit 0 ds = wrap (Body.numberOf base digit ds) := by
  have hread := @readLong_wrap base digit ds hds 0
  exact hread

lemma wrap_of_lt {x : ℤ} (h : x.natAbs < 2 ^ 53) : wrap x = x := by
  exact Int.bmod_eq_of_le (by omega) (by omega)

/-- Decimal digits without a point. -/
lemma readDecimal_append (hds : ∀ c ∈ ds, c.isDigit) (n : ℕ) (total decimal : ℤ) (str : CStr) :
    readDecimal n total decimal (ds ++ str) =
      readDecimal ((ds.foldl (fun n c => n * 10 + (decDigit c).getD 0) n : ℕ) : ℚ)
        (total + ds.length) decimal str := by
  induction ds generalizing n total with
  | nil => simp
  | cons c ds ih =>
    have hc := hds c List.mem_cons_self
    obtain ⟨d, hd⟩ := Option.isSome_iff_exists.1 ((isSome_decDigit c).2 hc)
    have hpoint : c ≠ '.' := by
      rintro rfl
      exact absurd hc (by decide)
    have hrest := ih (fun x hx => hds x (List.mem_cons_of_mem c hx)) (n * 10 + d) (total + 1)
    rw [List.cons_append, readDecimal, if_neg hpoint, hd, List.foldl_cons, hd, Option.getD_some,
      List.length_cons]
    push_cast at hrest ⊢
    rw [hrest, add_assoc, add_comm (1 : ℤ)]

lemma divideTens_eq (n : ℕ) (val : ℚ) : divideTens n val = val / 10 ^ n := by
  induction n generalizing val with
  | zero => simp [divideTens]
  | succ n ih => rw [divideTens, ih, pow_succ', div_div]

end digits

/-! ## Reading literals -/

section literals

namespace Body

lemma head?_text_ne (body : Body) : body.text.head? ≠ some '-' := by
  cases body with
  | decimal ds nonempty digits =>
    intro h
    exact absurd (digits '-' (List.mem_of_head? h)) (by decide)
  | hexadecimal mark ds marks nonempty digits => simp [text]
  | character c nonzero => simp [text]

lemma hexMark_text (body : Body) : hexMark body.text = body.isHexadecimal := by
  cases body with
  | decimal ds nonempty digits =>
    have hnot : ∀ x, x.isDigit = false → ds[1]? ≠ some x := by
      intro x hx h
      rw [digits x (List.mem_of_getElem? h)] at hx
      cases hx
    simp [hexMark, text, isHexadecimal, hnot 'x' (by decide), hnot 'X' (by decide)]
  | hexadecimal mark ds marks nonempty digits =>
    obtain rfl | rfl := marks <;> simp [hexMark, text, isHexadecimal]
  | character c nonzero => simp [hexMark, text, isHexadecimal]

end Body

namespace Literal

/-- The sign as a factor. -/
def sign (lit : Literal) : ℤ := if lit.negative then -1 else 1

lemma value_eq (lit : Literal) : lit.value = lit.sign * lit.body.value := by
  unfold value sign
  split <;> simp

lemma takeMinus_text (lit : Literal) : takeMinus lit.text = (lit.sign, lit.body.text) := by
  unfold text sign
  cases lit.negative with
  | true => rfl
  | false => exact takeMinus_of_ne lit.body.head?_text_ne

lemma natAbs_value (lit : Literal) : lit.value.natAbs = lit.body.value.natAbs := by
  unfold value
  split <;> simp

/-- `flexval_atol` reads every literal. -/
lemma flexvalAtol_text (lit : Literal) (h : lit.value.natAbs < 2 ^ 53) :
    flexvalAtol lit.text = lit.value := by
  have hbody := wrap_of_lt (lit.natAbs_value ▸ h)
  have hvalue := wrap_of_lt h
  rw [value_eq] at hvalue ⊢
  unfold flexvalAtol
  rw [takeMinus_text]
  dsimp only
  rw [Body.hexMark_text]
  generalize lit.body = body at *
  cases body with
  | decimal ds nonempty digits =>
    have hread := (@readLong_zero 10 decDigit ds fun c hc =>
      (isSome_decDigit c).2 (digits c hc)).trans hbody
    have hquote : (Body.decimal ds nonempty digits).text.head? ≠ some '\'' := fun hhead =>
      absurd (digits '\'' (List.mem_of_head? hhead)) (by decide)
    rw [if_neg (by simp [Body.isHexadecimal]), if_neg hquote]
    exact (congrArg (fun x => wrap (lit.sign * x)) hread).trans hvalue
  | hexadecimal mark ds marks nonempty digits =>
    have hread := (@readLong_zero 16 hexDigit ds digits).trans hbody
    exact (congrArg (fun x => wrap (lit.sign * x)) hread).trans hvalue
  | character c nonzero => rfl

/-- `flexval_atolf` reads the literals that are not hexadecimal. -/
lemma flexvalAtolf_text (lit : Literal) (h : lit.body.isHexadecimal = false) :
    flexvalAtolf lit.text = ((lit.value : ℚ), lit.text) := by
  rw [value_eq]
  unfold flexvalAtolf
  rw [takeMinus_text]
  dsimp only
  rw [Body.hexMark_text, h, if_neg Bool.false_ne_true]
  generalize lit.body = body at *
  cases body with
  | decimal ds nonempty digits =>
    have hread := readDecimal_append digits 0 0 (-1) []
    have hquote : (Body.decimal ds nonempty digits).text.head? ≠ some '\'' := fun hhead =>
      absurd (digits '\'' (List.mem_of_head? hhead)) (by decide)
    rw [List.append_nil, Nat.cast_zero] at hread
    have htext : (Body.decimal ds nonempty digits).text = ds := rfl
    rw [if_neg hquote, htext, hread]
    simp [readDecimal, Body.value, Body.numberOf]
  | hexadecimal mark ds marks nonempty digits => cases h
  | character c nonzero => simp [Body.text, Body.value]

/-- Of a hexadecimal literal only the mark is read, after its first character was made a two. -/
lemma flexvalAtolf_hexadecimal (lit : Literal) (h : lit.body.isHexadecimal) :
    (flexvalAtolf lit.text).1 = lit.sign * 2 ∧
      (flexvalAtolf lit.text).2 =
        (if lit.negative then ['-'] else []) ++ '2' :: lit.body.text.tail := by
  have hmark := lit.body.hexMark_text
  unfold flexvalAtolf
  rw [takeMinus_text]
  dsimp only
  rw [hmark, if_pos h]
  obtain ⟨negative, body⟩ := lit
  cases body with
  | hexadecimal mark ds marks nonempty digits =>
    have hx : hexDigit mark = none := by
      obtain rfl | rfl := marks <;> rfl
    have htwo : hexDigit '2' = some 2 := rfl
    cases negative <;> simp [Body.text, text, sign, readHex, hx, htwo]
  | decimal ds nonempty digits => cases h
  | character c nonzero => cases h

/-- Both functions agree on a literal exactly when it is not hexadecimal. -/
theorem agrees_iff (lit : Literal) (h : lit.value.natAbs < 2 ^ 53) :
    lit.Agrees ↔ lit.body.isHexadecimal = false := by
  constructor
  · intro hagrees
    rw [← Bool.not_eq_true]
    intro hhex
    have hstring := hagrees.unchanged
    rw [(lit.flexvalAtolf_hexadecimal hhex).2] at hstring
    obtain ⟨negative, body⟩ := lit
    cases body with
    | hexadecimal mark ds marks nonempty digits =>
      cases negative <;> simp [text, Body.text] at hstring
    | decimal ds nonempty digits => cases hhex
    | character c nonzero => cases hhex
  · intro hhex
    exact ⟨lit.flexvalAtol_text h, by rw [lit.flexvalAtolf_text hhex],
      by rw [lit.flexvalAtolf_text hhex]⟩

/-- A limit as it is written in a configuration. -/
def sampleNumber : Literal := ⟨true, .decimal ['6', '4'] (by decide) (by simp)⟩

theorem agrees_iff_sampleNumber : sampleNumber.Agrees :=
  (agrees_iff sampleNumber (by decide)).2 rfl

/-- Sixteen. -/
def sampleHexadecimal : Literal :=
  ⟨false, .hexadecimal 'x' ['1', '0'] (by decide) (by decide) (by simp [hexDigit])⟩

/-- The integer is sixteen and the real number is two; the string begins with `2x` afterwards. -/
theorem hexadecimal_is_overwritten :
    sampleHexadecimal.value.natAbs < 2 ^ 53 ∧ ¬sampleHexadecimal.Agrees := by
  refine ⟨by decide, fun h => ?_⟩
  have hstring := h.unchanged
  rw [(flexvalAtolf_hexadecimal sampleHexadecimal rfl).2] at hstring
  exact absurd hstring (by decide)

end Literal

end literals

end WebTester.Literals
