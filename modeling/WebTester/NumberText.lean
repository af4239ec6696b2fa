import WebTester.CString

/-!
# Numbers in texts

`is_number_entry` decides whether a text is a number, `flexval_atol` reads one: a sign and then a
hexadecimal number, a character or decimal digits. A `long` is wrapped to 64 bits.
-/
namespace WebTester.Flexval
open CString

/-- `is_number_entry`, from some character on: is it the first one, and was there a separator? -/
def isNumberEntry (float : Bool) : (first decimal : Bool) → CStr → Bool
  | _, _, [] => true
  | first, decimal, c :: cs =>
    if c = '-' && !first then false
    else if c = '.' || c = ',' then
      if !float then false
      else if decimal then false
      else isNumberEntry float false true cs
    else if !c.isDigit && c ≠ '-' then false
    else isNumberEntry float false decimal cs

/-- `is_number`. -/
def isNumber (self : CStr) : Bool := isNumberEntry true true false self

/-- `is_integer`. -/
def isInteger (self : CStr) : Bool := isNumberEntry false true false self

/-- A decimal digit. -/
def decDigit (c : Char) : Option ℕ := if c.isDigit then some (c.toNat - '0'.toNat) else none

/-- A hexadecimal digit. -/
def hexDigit (c : Char) : Option ℕ :=
  if c.isDigit then some (c.toNat - '0'.toNat)
  else if 'a' ≤ c && c ≤ 'f' then some (c.toNat - 'a'.toNat + 10)
  else if 'A' ≤ c && c ≤ 'F' then some (c.toNat - 'A'.toNat + 10)
  else none

/-- A `long`. -/
def wrap (x : ℤ) : ℤ := x.bmod (2 ^ 64)

/-- The sign that is read first. -/
def takeMinus (s : CStr) : ℤ × CStr := if s.head? = some '-' then (-1, s.tail) else (1, s)

/-- `0x` or `0X`. -/
def hexMark (s : CStr) : Bool := s[0]? = some '0' && (s[1]? = some 'x' || s[1]? = some 'X')

/-- The loops of `flexval_atol`: digits up to the first character that is none. -/
def readLong (base : ℕ) (digit : Char → Option ℕ) : ℤ → CStr → ℤ
  | val, [] => val
  | val, c :: cs => match digit c with
    | some d => readLong base digit (wrap (val * base + d)) cs
    | none => val

/-- `flexval_atol`. -/
def flexvalAtol (self : CStr) : ℤ :=
  let sign := (takeMinus self).1
  let self := (takeMinus self).2
  if hexMark self then wrap (sign * readLong 16 hexDigit 0 (self.drop 2))
  else if self.head? = some '\'' then sign * schar (self.getD 1 '\x00')
  else wrap (sign * readLong 10 decDigit 0 self)

lemma takeMinus_minus (s : CStr) : takeMinus ('-' :: s) = (-1, s) := rfl

lemma takeMinus_of_ne {s : CStr} (h : s.head? ≠ some '-') : takeMinus s = (1, s) := if_neg h

lemma ne_of_isDigit {c d : Char} (hc : c.isDigit) (hd : d.isDigit = false) : c ≠ d := by
  rintro rfl
  exact absurd (hc.symm.trans hd) (by decide)

/-! ## Integers -/

lemma isNumberEntry_integer (first : Bool) (cs : CStr) (h : first → cs.head? ≠ some '-') :
    isNumberEntry false first false cs ↔ ∀ c ∈ cs, c.isDigit := by
  induction cs generalizing first with
  | nil => simp [isNumberEntry]
  | cons c cs ih =>
    by_cases hc : c.isDigit
    · have hne : ∀ d, d.isDigit = false → c ≠ d := fun d => ne_of_isDigit hc
      have hrest := ih false fun hfalse => (nomatch hfalse)
      simp [isNumberEntry, hc, hrest, hne '-' (by decide), hne '.' (by decide), hne ',' (by decide)]
    · refine iff_of_false ?_ fun hall => hc (hall c List.mem_cons_self)
      rw [isNumberEntry]
      cases first
      · split_ifs <;> simp_all
      · have hminus : c ≠ '-' := by simpa using h rfl
        split_ifs <;> simp_all

lemma isInteger_iff (s : CStr) : isInteger s ↔ ∀ c ∈ (takeMinus s).2, c.isDigit := by
  by_cases hminus : s.head? = some '-'
  · obtain ⟨cs, rfl⟩ := List.head?_eq_some_iff.1 hminus
    exact isNumberEntry_integer false cs fun hfalse => (nomatch hfalse)
  · rw [takeMinus_of_ne hminus]
    exact isNumberEntry_integer true s fun _ => hminus

/-! ## Reading digits -/

section digits

variable {base : ℕ} {digit : Char → Option ℕ} {ds : CStr}

lemma wrap_add_mul (x d : ℤ) : wrap (wrap x * base + d) = wrap (x * base + d) := by
  unfold wrap
  rw [← Int.bmod_add_bmod, Int.bmod_mul_bmod, Int.bmod_add_bmod]

/-- The number grows by the digits that follow, and is wrapped. -/
lemma readLong_wrap (hds : ∀ c ∈ ds, (digit c).isSome) (n : ℕ) :
    readLong base digit (wrap n) ds =
      wrap (ds.foldl (fun n c => n * base + (digit c).getD 0) n : ℕ) := by
  induction ds generalizing n with
  | nil => rfl
  | cons c ds ih =>
    obtain ⟨d, hd⟩ := Option.isSome_iff_exists.1 (hds c List.mem_cons_self)
    have hrest := ih (fun x hx => hds x (List.mem_cons_of_mem c hx)) (n * base + d)
    have hstep : wrap (wrap n * base + d) = wrap (n * base + d : ℕ) := by
      rw [wrap_add_mul]
      push_cast
      rfl
    rw [readLong, hd, List.foldl_cons, hd, Option.getD_some, ← hrest]
    exact congrArg (readLong base digit · ds) hstep

lemma isSome_decDigit (c : Char) : (decDigit c).isSome ↔ c.isDigit := by
  unfold decDigit
  split <;> simp_all

lemma foldl_decDigit (hds : ∀ c ∈ ds, c.isDigit) (n : ℕ) :
    ds.foldl (fun n c => n * 10 + (decDigit c).getD 0) n =
      ds.foldl (fun n c => 10 * n + (c.toNat - '0'.toNat)) n := by
  induction ds generalizing n with
  | nil => rfl
  | cons c ds ih =>
    have hc : decDigit c = some (c.toNat - '0'.toNat) := if_pos (hds c List.mem_cons_self)
    rw [List.foldl_cons, List.foldl_cons, hc, Option.getD_some, Nat.mul_comm n]
    exact ih (fun x hx => hds x (List.mem_cons_of_mem c hx)) _

lemma readLong_decimal (hds : ∀ c ∈ ds, c.isDigit) :
    readLong 10 decDigit 0 ds = wrap (digitsValue ds) := by
  have hread := @readLong_wrap 10 decDigit ds (fun c hc => (isSome_decDigit c).2 (hds c hc)) 0
  rw [foldl_decDigit hds 0] at hread
  exact hread

/-- The number of a text of decimal digits, perhaps after a sign. -/
lemma flexvalAtol_decimal {s : CStr} (h : ∀ c ∈ (takeMinus s).2, c.isDigit) :
    flexvalAtol s = wrap ((takeMinus s).1 * digitsValue (takeMinus s).2) := by
  have hmark : hexMark (takeMinus s).2 = false := by
    rw [hexMark, Bool.and_eq_false_iff, Bool.or_eq_false_iff]
    refine .inr ⟨decide_eq_false fun hx => ?_, decide_eq_false fun hx => ?_⟩
    · exact absurd (h 'x' (List.mem_of_getElem? hx)) (by decide)
    · exact absurd (h 'X' (List.mem_of_getElem? hx)) (by decide)
  have hquote : (takeMinus s).2.head? ≠ some '\'' := fun hx =>
    absurd (h '\'' (List.mem_of_mem_head? hx)) (by decide)
  unfold flexvalAtol
  dsimp only
  rw [hmark, if_neg Bool.false_ne_true, if_neg hquote, readLong_decimal h, wrap, wrap,
    Int.mul_bmod_bmod]
  rfl

end digits

lemma flexvalAtol_nil : flexvalAtol [] = 0 := by decide

end WebTester.Flexval
