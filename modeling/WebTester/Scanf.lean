import WebTester.FlexVal

/-!
# Formatted input and output of numbers

The directives of `sscanf` that the programs use: numbers, characters that have to be there, and
white space. What the matching directives of `printf` have written is read back.
-/
namespace WebTester.Scanf
open CString Flexval

/-- `%d`, `%ld`, a character of the format and white space of the format. -/
inductive Directive
  | int
  | long
  | lit (c : Char)
  | space
  deriving DecidableEq

/-- The number that `%d` and `%ld` read: white space, a sign and at least one digit. -/
def scanNumber (text : CStr) : Option (ℤ × CStr) :=
  let t := takeSign (text.dropWhile isSpace)
  let digits := t.2.takeWhile Char.isDigit
  if digits = [] then none else some (digitsValue digits * t.1, t.2.dropWhile Char.isDigit)

/-- `sscanf`: the values up to the first directive that does not match. -/
def sscanf : List Directive → CStr → List ℤ
  | [], _ => []
  | .space :: ds, text => sscanf ds (text.dropWhile isSpace)
  | .lit c :: ds, text => if text.head? = some c then sscanf ds text.tail else []
  | .int :: ds, text => match scanNumber text with
    | none => []
    | some (v, rest) => toInt (clampLong v) :: sscanf ds rest
  | .long :: ds, text => match scanNumber text with
    | none => []
    | some (v, rest) => clampLong v :: sscanf ds rest

/-- `%02d`. -/
def print02 (x : ℤ) : CStr :=
  if (printLong x).length < 2 then '0' :: printLong x else printLong x

/-- A text that does not go on with a digit. -/
def Stops (text : CStr) : Prop := text.head?.all (fun c => !c.isDigit) = true

variable {ds : List Directive} {text rest digits : CStr} {c : Char} {x : ℤ}

lemma stops_cons (h : c.isDigit = false) : Stops (c :: text) := by simp [Stops, h]

lemma takeSign_of_digit (h : c.isDigit = true) : takeSign (c :: text) = (1, c :: text) := by
  have hminus : c ≠ '-' := by
    rintro rfl
    exact absurd h (by decide)
  have hplus : c ≠ '+' := by
    rintro rfl
    exact absurd h (by decide)
  simp [takeSign, hminus, hplus]

lemma takeWhile_digits (h : ∀ c ∈ digits, c.isDigit = true) (hrest : Stops rest) :
    (digits ++ rest).takeWhile Char.isDigit = digits ∧
      (digits ++ rest).dropWhile Char.isDigit = rest := by
  refine takeWhile_append_stop h fun c hc => ?_
  unfold Stops at hrest
  rw [hc] at hrest
  simpa using hrest

/-- Digits are read as their value. -/
lemma scanNumber_digits (hne : digits ≠ []) (h : ∀ c ∈ digits, c.isDigit = true)
    (hrest : Stops rest) : scanNumber (digits ++ rest) = some ((digitsValue digits : ℤ), rest) := by
  obtain ⟨htake, hdrop⟩ := takeWhile_digits h hrest
  obtain ⟨c, cs, rfl⟩ := List.exists_cons_of_ne_nil hne
  have hc := h c List.mem_cons_self
  have hskip : (c :: cs ++ rest).dropWhile isSpace = c :: cs ++ rest :=
    List.dropWhile_cons_of_neg (by simp [isSpace_of_isDigit hc])
  have hsign : takeSign (c :: cs ++ rest) = (1, c :: cs ++ rest) := takeSign_of_digit hc
  unfold scanNumber
  rw [hskip, hsign]
  simp only [htake, hdrop, Int.mul_one]
  simp

lemma decimal_ne_nil (n : ℕ) : decimal n ≠ [] := Nat.toDigits_ne_nil

lemma digitsValue_decimal (n : ℕ) : digitsValue (decimal n) = n := Nat.ofDigitChars_ten_toDigits

/-- A printed number is read back. -/
lemma scanNumber_printLong (x : ℤ) (hrest : Stops rest) :
    scanNumber (printLong x ++ rest) = some (x, rest) := by
  have hdigits : ∀ c ∈ decimal x.natAbs, c.isDigit = true := fun _ => isDigit_of_mem_decimal
  unfold printLong
  split
  · obtain ⟨htake, hdrop⟩ := takeWhile_digits hdigits hrest
    have hskip : ('-' :: decimal x.natAbs ++ rest).dropWhile isSpace =
        '-' :: (decimal x.natAbs ++ rest) := List.dropWhile_cons_of_neg (by decide)
    have hsign : takeSign ('-' :: (decimal x.natAbs ++ rest)) =
        (-1, decimal x.natAbs ++ rest) := rfl
    unfold scanNumber
    rw [hskip, hsign]
    simp only [htake, hdrop, digitsValue_decimal, decimal_ne_nil, if_false]
    congr 2
    omega
  · rw [scanNumber_digits (decimal_ne_nil _) hdigits hrest, digitsValue_decimal]
    congr 2
    omega

lemma toInt_clampLong (hlo : -2 ^ 31 ≤ x) (hhi : x < 2 ^ 31) : toInt (clampLong x) = x := by
  have hclamp : clampLong x = x := by
    unfold clampLong
    omega
  rw [hclamp, toInt]
  exact Int.bmod_eq_of_le (by omega) (by omega)

lemma sscanf_int_printLong (hlo : -2 ^ 31 ≤ x) (hhi : x < 2 ^ 31) (hrest : Stops rest) :
    sscanf (.int :: ds) (printLong x ++ rest) = x :: sscanf ds rest := by
  rw [sscanf, scanNumber_printLong x hrest]
  dsimp only
  rw [toInt_clampLong hlo hhi]

lemma sscanf_lit : sscanf (.lit c :: ds) (c :: rest) = sscanf ds rest := by
  simp [sscanf]

/-- White space of the text that no directive but white space takes. -/
lemma sscanf_space (h : rest.head?.all (fun c => !isSpace c) = true)
    (hspace : ∀ c ∈ text, isSpace c) :
    sscanf (.space :: ds) (text ++ rest) = sscanf ds rest := by
  have hdrop : rest.dropWhile isSpace = rest := by
    cases rest with
    | nil => rfl
    | cons c rest => exact List.dropWhile_cons_of_neg (by simpa using h)
  rw [sscanf, List.dropWhile_append_of_pos hspace, hdrop]

lemma sscanf_long_digits (hne : digits ≠ []) (h : ∀ c ∈ digits, c.isDigit = true)
    (hlt : digitsValue digits < 2 ^ 63) (hrest : Stops rest) :
    sscanf (.long :: ds) (digits ++ rest) = (digitsValue digits : ℤ) :: sscanf ds rest := by
  have hclamp : clampLong (digitsValue digits) = digitsValue digits := by
    unfold clampLong
    omega
  rw [sscanf, scanNumber_digits hne h hrest]
  dsimp only
  rw [hclamp]

/-- Two digits, with the value that was printed. -/
lemma print02_spec (hlo : 0 ≤ x) (hhi : x < 100) :
    (print02 x).length = 2 ∧ (∀ c ∈ print02 x, c.isDigit = true) ∧
      (digitsValue (print02 x) : ℤ) = x := by
  have hprint : printLong x = decimal x.natAbs := if_neg (by omega)
  have hdigits : ∀ c ∈ decimal x.natAbs, c.isDigit = true := fun _ => isDigit_of_mem_decimal
  have hvalue := digitsValue_decimal x.natAbs
  have hle : (decimal x.natAbs).length ≤ 2 :=
    (Nat.length_toDigits_le_iff (by decide) (by decide)).2 (by omega)
  have hpos : 0 < (decimal x.natAbs).length := Nat.length_toDigits_pos
  unfold print02
  rw [hprint]
  split
  · refine ⟨by rw [List.length_cons]; omega, ?_, ?_⟩
    · intro c hc
      obtain rfl | hc := List.mem_cons.1 hc
      · decide
      · exact hdigits c hc
    · have happend := digitsValue_append ['0'] (decimal x.natAbs)
      have hzero : digitsValue ['0'] = 0 := rfl
      rw [hzero, hvalue, Nat.mul_zero, Nat.zero_add] at happend
      change (digitsValue (['0'] ++ decimal x.natAbs) : ℤ) = x
      omega
  · exact ⟨by omega, hdigits, by omega⟩

lemma notMem_print02 (hd : c.isDigit = false) (hm : c ≠ '-') (x : ℤ) : c ∉ print02 x := by
  have hprint := notMem_printLong hd hm x
  unfold print02
  split
  · rw [List.mem_cons, not_or]
    refine ⟨?_, hprint⟩
    rintro rfl
    exact absurd hd (by decide)
  · exact hprint

lemma sscanf_int_print02 (hlo : 0 ≤ x) (hhi : x < 100) (hrest : Stops rest) :
    sscanf (.int :: ds) (print02 x ++ rest) = x :: sscanf ds rest := by
  obtain ⟨hlength, hdigits, hvalue⟩ := print02_spec hlo hhi
  have hne : print02 x ≠ [] := by
    intro hnil
    simp [hnil] at hlength
  rw [sscanf, scanNumber_digits hne hdigits hrest, hvalue]
  dsimp only
  rw [toInt_clampLong (by omega) (by omega)]

end WebTester.Scanf
