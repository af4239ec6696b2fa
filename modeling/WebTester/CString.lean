import Mathlib.Data.List.Induction
import Mathlib.Data.List.TakeWhile
import Mathlib.Algebra.Order.Group.Int
import Mathlib.Algebra.Ring.Nat

/-!
# C strings and integer conversions

A string is the list of its characters before the terminating NUL. `long` has
64 bits and `int` has 32, as on the platforms the server is built for.
-/
namespace WebTester.CString

abbrev CStr := List Char

/-- A `char` is signed. -/
def schar (c : Char) : ℤ := (c.toNat : ℤ).bmod 256

/-- `isspace` in the C locale. -/
def isSpace (c : Char) : Bool := c == ' ' || ('\t' ≤ c && c ≤ '\r')

/-- Value of a run of decimal digits. -/
def digitsValue (ds : CStr) : ℕ :=
  ds.foldl (fun n c => 10 * n + (c.toNat - '0'.toNat)) 0

/-- Out-of-range results of `strtol` are replaced by the nearest `long`. -/
def clampLong (x : ℤ) : ℤ := max (-2 ^ 63) (min x (2 ^ 63 - 1))

/-- `atol`: leading white space, an optional sign and the digits that follow. -/
def atol (s : CStr) : ℤ :=
  match s.dropWhile isSpace with
  | '-' :: ds => clampLong (-digitsValue (ds.takeWhile Char.isDigit))
  | '+' :: ds => clampLong (digitsValue (ds.takeWhile Char.isDigit))
  | ds => clampLong (digitsValue (ds.takeWhile Char.isDigit))

/-- Conversion of a `long` to `int`: the low 32 bits, read as a signed number. -/
def toInt (x : ℤ) : ℤ := x.bmod (2 ^ 32)

def atoi (s : CStr) : ℤ := toInt (atol s)

/-- `%u` and `%ld` of a number that is not negative. -/
def decimal (n : ℕ) : CStr := Nat.toDigits 10 n

lemma isDigit_of_mem_decimal {n : ℕ} {c : Char} (h : c ∈ decimal n) : c.isDigit :=
  Nat.isDigit_of_mem_toDigits (by decide) (by decide) h

lemma isSpace_of_isDigit {c : Char} (hc : c.isDigit) : isSpace c = false := by
  have h := Char.isDigit_iff_toNat.1 hc
  rw [Bool.eq_false_iff]
  intro hs
  simp [isSpace, Char.le_def, UInt32.le_iff_toNat_le] at hs
  simp only [Char.reduceToNat] at h
  rcases hs with rfl | hs
  · simp at h
  · omega

/-- What is behind a run of characters does not begin with one of its kind. -/
lemma eq_false_of_head?_dropWhile {p : Char → Bool} {text : CStr} {c : Char}
    (h : (text.dropWhile p).head? = some c) : p c = false := by
  have hnot := List.head?_dropWhile_not p text
  rw [h] at hnot
  simpa using hnot

/-- A run of characters ends before one that is not of its kind. -/
lemma takeWhile_append_stop {p : Char → Bool} {w rest : CStr} (hw : ∀ c ∈ w, p c = true)
    (hrest : ∀ c, rest.head? = some c → p c = false) :
    (w ++ rest).takeWhile p = w ∧ (w ++ rest).dropWhile p = rest := by
  have hstop : rest.takeWhile p = [] ∧ rest.dropWhile p = rest := by
    cases rest with
    | nil => exact ⟨rfl, rfl⟩
    | cons c rest =>
      have hc : ¬p c = true := by simp [hrest c rfl]
      exact ⟨List.takeWhile_cons_of_neg hc, List.dropWhile_cons_of_neg hc⟩
  rw [List.takeWhile_append_of_pos hw, List.dropWhile_append_of_pos hw, hstop.1, hstop.2,
    List.append_nil]
  exact ⟨rfl, rfl⟩

/-- Digits are read as their value if a `long` can hold it. -/
lemma atol_digits {ds : CStr} (hne : ds ≠ []) (hds : ∀ c ∈ ds, c.isDigit = true)
    (hlong : digitsValue ds < 2 ^ 63) : atol ds = digitsValue ds := by
  have htake : ds.takeWhile Char.isDigit = ds := List.takeWhile_eq_self_iff.2 hds
  obtain ⟨c, cs, rfl⟩ := List.exists_cons_of_ne_nil hne
  have hc := hds c List.mem_cons_self
  unfold atol
  rw [List.dropWhile_cons_of_neg (by simp [isSpace_of_isDigit hc])]
  split
  · next heq =>
    obtain ⟨rfl, -⟩ := List.cons_eq_cons.1 heq
    exact absurd hc (by decide)
  · next heq =>
    obtain ⟨rfl, -⟩ := List.cons_eq_cons.1 heq
    exact absurd hc (by decide)
  · rw [htake]
    unfold clampLong
    omega

/-- Numbers that a `long` can hold are read back as they were printed. -/
theorem atol_decimal {n : ℕ} (h : n < 2 ^ 63) : atol (decimal n) = n := by
  have hvalue : digitsValue (decimal n) = n := Nat.ofDigitChars_ten_toDigits
  have hread : atol (decimal n) = digitsValue (decimal n) :=
    atol_digits Nat.toDigits_ne_nil (fun _ => isDigit_of_mem_decimal) (hvalue.trans_lt h)
  rw [hread, hvalue]

/-- The lower 32 bits, the highest of them for the sign. -/
lemma toInt_eq_emod (x : ℤ) :
    toInt x = if x % 2 ^ 32 < 2 ^ 31 then x % 2 ^ 32 else x % 2 ^ 32 - 2 ^ 32 := by
  unfold toInt Int.bmod
  dsimp only
  split <;> split <;> omega

/-- A non-negative `long` never grows when it is cut down to `int`. -/
theorem toInt_le {x : ℤ} (hx : 0 ≤ x) : toInt x ≤ x := by
  have hm : x % 2 ^ 32 ≤ x := by omega
  rw [toInt_eq_emod]
  split <;> omega

/-- A natural number that `int` can hold. -/
lemma toInt_natCast {n : ℕ} (h : n < 2 ^ 31) : toInt n = n :=
  Int.bmod_eq_of_le (by omega) (by omega)

lemma digitsValue_snoc (ds : CStr) (d : Char) :
    digitsValue (ds ++ [d]) = 10 * digitsValue ds + (d.toNat - '0'.toNat) := by
  simp [digitsValue]

lemma digitsValue_append (a b : CStr) :
    digitsValue (a ++ b) = 10 ^ b.length * digitsValue a + digitsValue b := by
  have happend : digitsValue (a ++ b) = Nat.ofDigitChars 10 b (digitsValue a) :=
    Nat.ofDigitChars_append 0
  rw [happend, Nat.ofDigitChars_eq_ofDigitChars_zero]
  rfl

/-- `n` digits are worth less than `10 ^ n`. -/
lemma digitsValue_lt {ds : CStr} (hds : ∀ c ∈ ds, c.isDigit = true) :
    digitsValue ds < 10 ^ ds.length := by
  induction ds using List.reverseRecOn with
  | nil => decide
  | append_singleton ds d ih =>
    have hinit := ih fun c hc => hds c (List.mem_append_left _ hc)
    have hd := Char.isDigit_iff_toNat.1 (hds d (List.mem_append_right _ List.mem_cons_self))
    have hzero : '0'.toNat = 48 := rfl
    have hnine : '9'.toNat = 57 := rfl
    rw [digitsValue_snoc, List.length_append, List.length_singleton, pow_succ]
    omega

example : atol ("  -12x".toList) = -12 := by decide
example : atoi ("4294967297".toList) = 1 := by decide

/-- A sign that may stand before a number. -/
def takeSign (text : CStr) : ℤ × CStr :=
  if text.head? = some '-' then (-1, text.tail)
  else if text.head? = some '+' then (1, text.tail)
  else (1, text)

lemma takeSign_sign (text : CStr) : (takeSign text).1 = 1 ∨ (takeSign text).1 = -1 := by
  unfold takeSign
  split
  · exact .inr rfl
  · split <;> exact .inl rfl

/-- `strcmp`, as a sign. -/
def strcmp : CStr → CStr → ℤ
  | [], [] => 0
  | [], _ :: _ => -1
  | _ :: _, [] => 1
  | a :: s, b :: t => if a = b then strcmp s t else if a.toNat < b.toNat then -1 else 1

lemma strcmp_eq_zero_iff {s t : CStr} : strcmp s t = 0 ↔ s = t := by
  induction s generalizing t with
  | nil => cases t <;> simp [strcmp]
  | cons a s ih =>
    cases t with
    | nil => simp [strcmp]
    | cons b t =>
      rw [strcmp]
      split_ifs with hab hlt
      · simp [hab, ih]
      · simp [hab]
      · simp [hab]

lemma strcmp_swap (s t : CStr) : strcmp t s = -strcmp s t := by
  induction s generalizing t with
  | nil => cases t <;> rfl
  | cons a s ih =>
    cases t with
    | nil => rfl
    | cons b t =>
      rw [strcmp, strcmp]
      by_cases hab : a = b
      · rw [if_pos hab, if_pos hab.symm, ih]
      · have hne : a.toNat ≠ b.toNat := fun h => hab (Char.toNat_inj.1 h)
        rw [if_neg hab, if_neg (Ne.symm hab)]
        split_ifs <;> omega

lemma strcmp_trans {s t u : CStr} (hst : strcmp s t ≤ 0) (htu : strcmp t u ≤ 0) :
    strcmp s u ≤ 0 := by
  induction s generalizing t u with
  | nil => cases u <;> simp [strcmp]
  | cons a s ih =>
    cases t with
    | nil => simp [strcmp] at hst
    | cons b t =>
      cases u with
      | nil => simp [strcmp] at htu
      | cons c u =>
        rw [strcmp] at hst htu ⊢
        by_cases hab : a = b
        · subst hab
          by_cases hac : a = c
          · rw [if_pos hac] at htu ⊢
            exact ih (by simpa using hst) htu
          · rwa [if_neg hac] at htu ⊢
        · rw [if_neg hab] at hst
          have hlt : a.toNat < b.toNat := by
            by_contra h
            simp [h] at hst
          by_cases hbc : b = c
          · subst hbc
            simp [hab, hlt]
          · rw [if_neg hbc] at htu
            have hlt' : b.toNat < c.toNat := by
              by_contra h
              simp [h] at htu
            have hac : a ≠ c := by
              rintro rfl
              omega
            rw [if_neg hac, if_pos (by omega)]
            decide

/-- `strncpy` of at most `n` characters into a zeroed array, read as a string. -/
def strncpy (n : ℕ) (s : CStr) : CStr := s.take n

end WebTester.CString
