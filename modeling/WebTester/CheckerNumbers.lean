import WebTester.Checking
import Mathlib.Algebra.Field.Rat
import Mathlib.Data.List.Basic
import Mathlib.Tactic.Ring

/-!
# The numbers that a checker reads

A number is the next word of a stream, the characters up to white space. The language of the
words that are accepted is stated apart from the routines. The arithmetic of `read_number` is
done once more in `long long`, where a result that does not fit has no defined value.
-/
namespace WebTester.TestLib
open CString

/-! ## Words -/

/-- The characters up to the next white space, after that in front of them. -/
def word (text : CStr) : CStr := (text.dropWhile isSpace).takeWhile (!isSpace ·)

/-- What follows the word. -/
def afterWord (text : CStr) : CStr := (text.dropWhile isSpace).dropWhile (!isSpace ·)

/-- The sign of a number, which may be left out. -/
inductive IsSign : CStr → ℤ → Prop
  | none : IsSign [] 1
  | plus : IsSign ['+'] 1
  | minus : IsSign ['-'] (-1)

/-- A sign and digits, with their value, which is in the range of the routine. -/
def IsInteger (max : ℤ) (w : CStr) (v : ℤ) : Prop :=
  ∃ sgn s digits, IsSign sgn s ∧ w = sgn ++ digits ∧ digits ≠ [] ∧
    (∀ c ∈ digits, c.isDigit = true) ∧ v = digitsValue digits * s ∧ -max - 1 ≤ v ∧ v ≤ max

variable {text w u rest digits sgn : CStr} {s v max : ℤ} {c : Char}

lemma word_append (text : CStr) : word text ++ afterWord text = text.dropWhile isSpace :=
  List.takeWhile_append_dropWhile

lemma head_afterWord (text : CStr) : (afterWord text).head?.all isSpace = true := by
  unfold afterWord
  cases hhead : ((text.dropWhile isSpace).dropWhile (!isSpace ·)).head? with
  | none => rfl
  | some c => simpa using eq_false_of_head?_dropWhile hhead

/-- Characters up to white space are the word. -/
lemma word_eq (htext : text.dropWhile isSpace = w ++ rest) (hw : ∀ c ∈ w, isSpace c = false)
    (hrest : rest.head?.all isSpace = true) : word text = w ∧ afterWord text = rest := by
  have hall : ∀ c ∈ w, (!isSpace c) = true := fun c hc => by rw [hw c hc]; rfl
  rw [word, afterWord, htext]
  refine takeWhile_append_stop hall fun c hc => ?_
  rw [hc, Option.all_some] at hrest
  rw [hrest]
  rfl

/-- White space is no part of a number. -/
lemma isFloat_of_isSpace (h : isSpace c = true) : isFloat c = false := by
  simp only [isSpace, Bool.or_eq_true, beq_iff_eq] at h
  rcases h with ((rfl | rfl) | rfl) | rfl <;> decide

lemma isFloat_of_isDigit (h : c.isDigit = true) : isFloat c = true := by
  rw [isFloat, h, Bool.or_true]

lemma isSpace_of_isFloat (h : isFloat c = true) : isSpace c = false := by
  by_contra hspace
  rw [Bool.not_eq_false] at hspace
  rw [isFloat_of_isSpace hspace] at h
  cases h

/-- White space ends a run of characters that are parts of a number. -/
lemma takeWhile_append_space {p : Char → Bool} (hp : ∀ c, p c = true → isFloat c = true)
    (hw : ∀ c ∈ w, p c = true) (hrest : rest.head?.all isSpace = true) :
    (w ++ rest).takeWhile p = w ∧ (w ++ rest).dropWhile p = rest := by
  refine takeWhile_append_stop hw fun c hc => ?_
  rw [hc, Option.all_some] at hrest
  by_contra hpc
  rw [Bool.not_eq_false] at hpc
  rw [isSpace_of_isFloat (hp c hpc)] at hrest
  cases hrest

lemma IsSign.isSpace_eq (hs : IsSign sgn s) (hc : c ∈ sgn) : isSpace c = false := by
  cases hs with
  | none => cases hc
  | plus =>
    obtain rfl := List.mem_singleton.1 hc
    decide
  | minus =>
    obtain rfl := List.mem_singleton.1 hc
    decide

/-- What a number has after its sign is no sign. -/
lemma head?_ne_sign (h : u.head?.all isFloat = true) : u.head? ≠ some '-' ∧ u.head? ≠ some '+' := by
  constructor
  · intro heq
    rw [heq] at h
    cases h
  · intro heq
    rw [heq] at h
    cases h

lemma takeSign_append (hs : IsSign sgn s) (hu : u.head?.all isFloat = true) :
    takeSign (sgn ++ u) = (s, u) := by
  obtain ⟨hminus, hplus⟩ := head?_ne_sign hu
  cases hs with
  | none => rw [List.nil_append, takeSign, if_neg hminus, if_neg hplus]
  | plus => rfl
  | minus => rfl

/-- Every text is a sign and what follows. -/
lemma exists_sign (text : CStr) :
    ∃ sgn, IsSign sgn (takeSign text).1 ∧ text = sgn ++ (takeSign text).2 := by
  unfold takeSign
  split
  · next h =>
    obtain ⟨rest, rfl⟩ := List.head?_eq_some_iff.1 h
    exact ⟨['-'], .minus, rfl⟩
  · split
    · next h =>
      obtain ⟨rest, rfl⟩ := List.head?_eq_some_iff.1 h
      exact ⟨['+'], .plus, rfl⟩
    · exact ⟨[], .none, rfl⟩

/-! ## Integers -/

/-- A word that is an integer is read. -/
lemma number_of_isInteger (h : IsInteger max (word text) v) :
    number max text = some (v, afterWord text) := by
  obtain ⟨sgn, s, digits, hs, hword, hne, hdigits, rfl, hlo, hhi⟩ := h
  have htext := word_append text
  have hrest := head_afterWord text
  obtain ⟨htake, hdrop⟩ := takeWhile_append_space (fun _ => isFloat_of_isDigit) hdigits hrest
  obtain ⟨c, cs, rfl⟩ := List.exists_cons_of_ne_nil hne
  have hc : isFloat c = true := isFloat_of_isDigit (hdigits c List.mem_cons_self)
  have hsign := takeSign_append (u := c :: cs ++ afterWord text) hs hc
  rw [hword, List.append_assoc] at htext
  rw [number, ← htext, hsign]
  dsimp only
  rw [htake, hdrop, if_pos ⟨hne, hlo, hhi, hrest⟩]

/-- What is read is a word that is an integer. -/
lemma isInteger_of_number (h : number max text = some (v, rest)) :
    IsInteger max (word text) v ∧ rest = afterWord text := by
  obtain ⟨sgn, hs, htext⟩ := exists_sign (text.dropWhile isSpace)
  unfold number at h
  dsimp only at h
  set t := takeSign (text.dropWhile isSpace)
  split at h
  · next hgood =>
    obtain ⟨hne, hlo, hhi, hrest⟩ := hgood
    cases h
    have hdigits : ∀ c ∈ t.2.takeWhile Char.isDigit, c.isDigit = true :=
      fun c hc => List.mem_takeWhile_imp hc
    have hsplit : text.dropWhile isSpace =
        (sgn ++ t.2.takeWhile Char.isDigit) ++ t.2.dropWhile Char.isDigit := by
      rw [List.append_assoc, List.takeWhile_append_dropWhile, ← htext]
    have hspace : ∀ c ∈ sgn ++ t.2.takeWhile Char.isDigit, isSpace c = false := by
      intro c hc
      rcases List.mem_append.1 hc with hc | hc
      · exact hs.isSpace_eq hc
      · exact isSpace_of_isFloat (isFloat_of_isDigit (hdigits c hc))
    obtain ⟨hword, hafter⟩ := word_eq hsplit hspace hrest
    exact ⟨⟨sgn, t.1, _, hs, hword, hne, hdigits, rfl, hlo, hhi⟩, hafter.symm⟩
  · cases h

/-! ## Arithmetic in `long long` -/

/-- A value of `long long`. -/
def longLong (x : ℤ) : Option ℤ := if -2 ^ 63 ≤ x ∧ x < 2 ^ 63 then some x else none

/-- The value after one more digit and the two comparisons with the bounds. -/
def addDigit (max sign val : ℤ) (c : Char) : Option (ℤ × Bool) := do
  let val ← longLong (val * 10)
  let val ← longLong (val + c.toNat)
  let val ← longLong (val - '0'.toNat)
  let signed ← longLong (sign * val)
  let low ← longLong (-max)
  let low ← longLong (low - 1)
  some (val, decide (signed < low ∨ max < signed))

/-- `collectNumber` in `long long`. -/
def collectNumber64 (max sign val : ℤ) (readed : Bool) :
    Option Char → File → Option (Except CStr (ℤ × Bool × Option Char × File))
  | none, f => some (.ok (val, readed, none, f))
  | some c, f =>
    if c.isDigit then
      (addDigit max sign val c).bind fun r =>
        if r.2 then some (.error "Invalid integer value (Range Check error)".toList)
        else collectNumber64 max sign r.1 true f.fgetc.1 f.fgetc.2
    else some (.ok (val, readed, some c, f))
termination_by ch f => ch.toList.length + f.ahead.length
decreasing_by
  rw [f.fgetc_length]
  simp

/-- `read_number` in `long long`. -/
def readNumber64 (max : ℤ) (f : File) : Option (Except CStr (ℤ × File)) :=
  let r := fgetcWhile isSpace f.fgetc.1 f.fgetc.2
  if r.1 = none then some (.error "Unexpected end of file".toList)
  else
    let s := getSign r.1 r.2
    (collectNumber64 max s.1 0 false s.2.1 s.2.2).bind fun
    | .error desc => some (.error desc)
    | .ok (val, readed, ch, f) =>
      if !ends ch || !readed then some (.error "Invalid integer value".toList)
      else (longLong (val * s.1)).map fun val => .ok (val, f.goback)

lemma longLong_eq {x : ℤ} (hlo : -2 ^ 63 ≤ x) (hhi : x < 2 ^ 63) : longLong x = some x :=
  if_pos ⟨hlo, hhi⟩

/-- A digit after a value in the range of a routine. -/
lemma addDigit_eq {sign val : ℤ} (hmax : 0 ≤ max) (hmax' : max < 2 ^ 31)
    (hsign : sign = 1 ∨ sign = -1) (hval : 0 ≤ val) (hval' : val ≤ max + 1)
    (hc : c.isDigit = true) :
    let val' := val * 10 + (c.toNat - '0'.toNat)
    addDigit max sign val c =
      some (val', decide (sign * val' < -max - 1 ∨ max < sign * val')) := by
  obtain ⟨hlo, hhi⟩ := Char.isDigit_iff_toNat.1 hc
  have hzero : '0'.toNat = 48 := rfl
  have hnine : '9'.toNat = 57 := rfl
  have hsigned : -2 ^ 63 ≤ sign * (val * 10 + ((c.toNat : ℤ) - '0'.toNat)) ∧
      sign * (val * 10 + ((c.toNat : ℤ) - '0'.toNat)) < 2 ^ 63 := by
    rcases hsign with rfl | rfl <;> omega
  have hten : longLong (val * 10) = some (val * 10) := longLong_eq (by omega) (by omega)
  have hadd : longLong (val * 10 + c.toNat) = some (val * 10 + c.toNat) :=
    longLong_eq (by omega) (by omega)
  have hsub : longLong (val * 10 + c.toNat - '0'.toNat) =
      some (val * 10 + (c.toNat - '0'.toNat)) := by
    rw [longLong_eq (by omega) (by omega), Int.add_sub_assoc]
  have hneg : longLong (-max) = some (-max) := longLong_eq (by omega) (by omega)
  have hlow : longLong (-max - 1) = some (-max - 1) := longLong_eq (by omega) (by omega)
  simp only [addDigit, hten, hadd, hsub, longLong_eq hsigned.1 hsigned.2, hneg, hlow,
    Option.bind_eq_bind, Option.bind_some]

/-- No step of the loop overflows, and the value stays in the range of the routine. -/
lemma collectNumber64_eq {sign val : ℤ} (hmax : 0 ≤ max) (hmax' : max < 2 ^ 31)
    (hsign : sign = 1 ∨ sign = -1) (hval : 0 ≤ val) (hval' : val ≤ max + 1) (readed : Bool)
    (ch : Option Char) (f : File) :
    collectNumber64 max sign val readed ch f = some (collectNumber max sign val readed ch f) ∧
      ∀ r, collectNumber max sign val readed ch f = .ok r → 0 ≤ r.1 ∧ r.1 ≤ max + 1 := by
  fun_induction collectNumber max sign val readed ch f with
  | case1 val readed f =>
    rw [collectNumber64]
    exact ⟨rfl, fun r hr => by cases hr; exact ⟨hval, hval'⟩⟩
  | case2 val readed c f hc val' hout =>
    rw [collectNumber64, if_pos hc, addDigit_eq hmax hmax' hsign hval hval' hc, Option.bind_some,
      if_pos (decide_eq_true hout)]
    exact ⟨rfl, fun r hr => by cases hr⟩
  | case3 val readed c f hc val' hin ih =>
    have hdigit := Char.isDigit_iff_toNat.1 hc
    have hzero : '0'.toNat = 48 := rfl
    have hpos : 0 ≤ val' := by omega
    have hle : val' ≤ max + 1 := by
      rcases hsign with rfl | rfl <;> omega
    rw [collectNumber64, if_pos hc, addDigit_eq hmax hmax' hsign hval hval' hc, Option.bind_some,
      if_neg fun h => hin (of_decide_eq_true h)]
    exact ih hpos hle
  | case4 val readed c f hc =>
    rw [collectNumber64, if_neg hc]
    exact ⟨rfl, fun r hr => by cases hr; exact ⟨hval, hval'⟩⟩

lemma getSign_sign (ch : Option Char) (f : File) :
    (getSign ch f).1 = 1 ∨ (getSign ch f).1 = -1 := by
  unfold getSign
  split_ifs
  · exact .inr rfl
  · exact .inl rfl
  · exact .inl rfl

/-- `read_number` computes in `long long` what it computes without a bound. -/
lemma readNumber64_eq (hmax : 0 ≤ max) (hmax' : max < 2 ^ 31) (f : File) :
    readNumber64 max f = some (readNumber max f) := by
  unfold readNumber64 readNumber
  dsimp only
  split
  · rfl
  · set sgn := getSign (fgetcWhile isSpace f.fgetc.1 f.fgetc.2).1
      (fgetcWhile isSpace f.fgetc.1 f.fgetc.2).2
    have hsign : sgn.1 = 1 ∨ sgn.1 = -1 := getSign_sign _ _
    obtain ⟨heq, hrange⟩ :=
      collectNumber64_eq hmax hmax' hsign le_rfl (by omega) false sgn.2.1 sgn.2.2
    rw [heq, Option.bind_some]
    cases hcollect : collectNumber max sgn.1 0 false sgn.2.1 sgn.2.2 with
    | error desc => rfl
    | ok r =>
      obtain ⟨val, readed, ch, g⟩ := r
      obtain ⟨hlo, hhi⟩ := hrange _ hcollect
      have hfits : longLong (val * sgn.1) = some (val * sgn.1) := by
        dsimp only at hlo hhi
        rcases hsign with h | h
        · rw [h]
          apply longLong_eq <;> omega
        · rw [h]
          apply longLong_eq <;> omega
      dsimp only
      rw [hfits, Option.map_some]
      split <;> rfl

/-- A routine for integers reads a word that is an integer, with its exact value, up to the
character after it, and quits at any other word. -/
theorem readNumber64_spec {max : ℤ} {f : File} (hmax : max = 32767 ∨ max = 2147483647)
    (h : f.Sound) (w : Which) (out : File) :
    (∀ v, IsInteger max (word f.ahead) v →
      ∃ g, readNumber64 max f = some (.ok (v, g)) ∧ g.ahead = afterWord f.ahead) ∧
    ((∀ v, ¬IsInteger max (word f.ahead) v) → ∃ desc, readNumber64 max f = some (.error desc) ∧
      (quit w out .pe desc).code = if w = .output then .pe else .cr) := by
  have hpos : 0 ≤ max := by omega
  have hagrees := readNumber_agrees hpos h
  rw [readNumber64_eq hpos (by omega)]
  constructor
  · intro v hv
    rw [number_of_isInteger hv] at hagrees
    obtain ⟨g, hread, -, hahead⟩ := hagrees
    exact ⟨g, by rw [hread], hahead⟩
  · intro hnone
    cases hnumber : number max f.ahead with
    | none =>
      rw [hnumber] at hagrees
      obtain ⟨desc, hread⟩ := hagrees
      exact ⟨desc, by rw [hread], by cases w <;> rfl⟩
    | some r =>
      exact absurd (isInteger_of_number hnumber).1 (hnone r.1)

/-- A number with leading zeros. -/
theorem readNumber64_zeros :
    ∃ g, readNumber64 32767 (.fopen " -007 1".toList) = some (.ok (-7, g)) ∧
      g.ahead = " 1".toList :=
  (readNumber64_spec (.inl rfl) (fun h => by cases h) .output (.fopen [])).1 (-7)
    ⟨['-'], -1, "007".toList, .minus, by decide, by decide, by simp, by decide, by decide,
      by decide⟩

/-! ## Real numbers -/

/-- `val` after the digits, over rational numbers. -/
def floatVal (digits : CStr) : ℚ :=
  digits.foldl (fun val c => val * 10 + c.toNat - '0'.toNat) 0

/-- The value that `testlib_read_float` computes from what it has read: the digits behind the
point are divided away one after the other. -/
def Decimal.val (d : Decimal) : ℚ := (· / 10)^[d.scale] (floatVal d.digits) * d.sign

/-- Nothing, or a point and digits, with their value. -/
inductive IsFraction : CStr → ℚ → Prop
  | none : IsFraction [] 0
  | point {p : Char} {frac : CStr} (hp : isPoint p = true) (hne : frac ≠ [])
      (hfrac : ∀ c ∈ frac, c.isDigit = true) :
      IsFraction (p :: frac) (digitsValue frac / 10 ^ frac.length)

/-- A sign, digits and a fraction, not both of these empty, with their value. -/
def IsReal (w : CStr) (v : ℚ) : Prop :=
  ∃ sgn s whole part q, IsSign sgn s ∧ IsFraction part q ∧ (∀ c ∈ whole, c.isDigit = true) ∧
    w = sgn ++ (whole ++ part) ∧ whole ++ part ≠ [] ∧ v = s * (digitsValue whole + q)

/-- A sign, points, digits and a fraction, with more than one point in all. -/
def Slips (w : CStr) : Prop :=
  ∃ sgn s points whole part q, IsSign sgn s ∧ IsFraction part q ∧
    (∀ c ∈ points, isPoint c = true) ∧ points ≠ [] ∧ (∀ c ∈ whole, c.isDigit = true) ∧ whole ≠ [] ∧
    w = sgn ++ (points ++ (whole ++ part)) ∧ (2 ≤ points.length ∨ part ≠ [])

/-- A word that is a real number is read with its value, up to the character after it, and any
other word is refused. -/
def FloatRight (f : File) : Prop :=
  (∀ v, IsReal (word f.ahead) v →
    ∃ d g, readFloat f = .ok (d, g) ∧ d.val = v ∧ g.ahead = afterWord f.ahead) ∧
  ((∀ v, ¬IsReal (word f.ahead) v) → ∃ desc, readFloat f = .error desc)

section real

variable {part ds : CStr} {q : ℚ} {decimal : ℤ} {readed : Bool} {ch : Option Char} {f : File}

lemma floatVal_eq (hds : ∀ c ∈ ds, c.isDigit = true) : floatVal ds = digitsValue ds := by
  induction ds using List.reverseRecOn with
  | nil => simp [floatVal, digitsValue]
  | append_singleton ds c ih =>
    have hc := (Char.isDigit_iff_toNat.1 (hds c (List.mem_append_right _ List.mem_cons_self))).1
    rw [digitsValue_snoc, Nat.cast_add, Nat.cast_sub hc, Nat.cast_mul,
      ← ih fun d hd => hds d (List.mem_append_left _ hd), floatVal, List.foldl_append, floatVal]
    simp only [List.foldl_cons, List.foldl_nil]
    ring

lemma iterate_div (n : ℕ) (x : ℚ) : (· / 10)^[n] x = x / 10 ^ n := by
  induction n with
  | zero => simp
  | succ n ih =>
    rw [Function.iterate_succ_apply', ih, pow_succ, div_div]

lemma At.cons_next (h : At ch f (c :: rest)) : ch = some c ∧ At f.fgetc.1 f.fgetc.2 rest := by
  obtain rfl := h.eq_head?
  exact ⟨rfl, h.next⟩

/-- A digit is collected. -/
lemma collectFloat_digit (hc : c.isDigit = true) (f : File) :
    collectFloat decimal digits readed (some c) f =
      collectFloat decimal (digits ++ [c]) true f.fgetc.1 f.fgetc.2 := by
  have hpoint : ¬isPoint c = true := fun h => by
    rw [isDigit_of_isPoint h] at hc
    cases hc
  rw [collectFloat, if_neg hpoint, if_pos hc]

lemma collectFloat_digits (hds : ∀ c ∈ ds, c.isDigit = true) (h : At ch f (ds ++ rest))
    (hne : ds ≠ []) : ∃ ch' f', At ch' f' rest ∧
      collectFloat decimal digits readed ch f =
        collectFloat decimal (digits ++ ds) true ch' f' := by
  induction ds generalizing ch f digits readed with
  | nil => exact absurd rfl hne
  | cons c ds ih =>
    obtain ⟨rfl, hnext⟩ := h.cons_next
    rw [collectFloat_digit (hds c List.mem_cons_self)]
    by_cases hnil : ds = []
    · subst hnil
      exact ⟨_, _, hnext, rfl⟩
    · obtain ⟨ch', f', hat, heq⟩ :=
        @ih (digits ++ [c]) true _ _ (fun d hd => hds d (List.mem_cons_of_mem c hd)) hnext hnil
      exact ⟨ch', f', hat, by rw [heq, List.append_assoc]; rfl⟩

/-- A point with no point after a digit before it. -/
lemma collectFloat_point {p : Char} (hp : isPoint p = true) (f : File) (hdecimal : decimal ≤ 0) :
    collectFloat decimal digits readed (some p) f =
      collectFloat digits.length digits false f.fgetc.1 f.fgetc.2 := by
  rw [collectFloat, if_pos hp, if_neg (by omega)]

lemma collectFloat_stop (h : At ch f rest) (hrest : rest.head?.all isSpace = true) :
    collectFloat decimal digits readed ch f = .ok (decimal, digits, readed, ch, f) := by
  cases rest with
  | nil =>
    obtain rfl := h.eq_head?
    rw [List.head?_nil, collectFloat]
  | cons c rest =>
    obtain ⟨rfl, -⟩ := h.cons_next
    have hspace : isSpace c = true := hrest
    have hfloat := isFloat_of_isSpace hspace
    rw [isFloat, Bool.or_eq_false_iff] at hfloat
    rw [collectFloat, if_neg (by simp [hfloat.1]), if_neg (by simp [hfloat.2])]

/-- The value of digits with some of them behind the point. -/
lemma val_eq {whole frac : CStr} (hwhole : ∀ c ∈ whole, c.isDigit = true)
    (hfrac : ∀ c ∈ frac, c.isDigit = true) (sign : ℤ) :
    Decimal.val ⟨sign, whole ++ frac, frac.length⟩ =
      sign * (digitsValue whole + digitsValue frac / 10 ^ frac.length) := by
  have hall : ∀ c ∈ whole ++ frac, c.isDigit = true := by
    intro c hc
    exact (List.mem_append.1 hc).elim (hwhole c) (hfrac c)
  have hpow : (10 : ℚ) ^ frac.length ≠ 0 := pow_ne_zero _ (by norm_num)
  rw [Decimal.val, iterate_div, floatVal_eq hall, digitsValue_append]
  rw [Nat.cast_add, Nat.cast_mul, Nat.cast_pow, Nat.cast_ofNat, add_div,
    mul_div_cancel_left₀ _ hpow, mul_comm]

/-- The digits of a real number, up to the character after it. -/
lemma collectFloat_real {whole : CStr} (hpart : IsFraction part q)
    (hwhole : ∀ c ∈ whole, c.isDigit = true) (hne : whole ++ part ≠ [])
    (hrest : rest.head?.all isSpace = true) (h : At ch f (whole ++ (part ++ rest))) :
    ∃ decimal digits ch' f', At ch' f' rest ∧
      collectFloat (-1) [] false ch f = .ok (decimal, digits, true, ch', f') ∧
      ∀ sign : ℤ, Decimal.val ⟨sign, digits,
        if decimal < 0 then 0 else digits.length - decimal.toNat⟩ =
          sign * (digitsValue whole + q) := by
  cases hpart with
  | none =>
    rw [List.append_nil] at hne
    obtain ⟨ch', f', hat, heq⟩ := collectFloat_digits hwhole h hne
    refine ⟨-1, whole, ch', f', hat, heq.trans (collectFloat_stop hat hrest), fun sign => ?_⟩
    have hval := val_eq hwhole (List.forall_mem_nil fun c : Char => c.isDigit = true) sign
    rw [List.append_nil] at hval
    rw [if_pos (by decide)]
    simpa [digitsValue] using hval
  | @point p frac hp hnef hfrac =>
    have hbefore : ∃ readed ch' f', At ch' f' (p :: (frac ++ rest)) ∧
        collectFloat (-1) [] false ch f = collectFloat (-1) whole readed ch' f' := by
      by_cases hnil : whole = []
      · subst hnil
        exact ⟨false, ch, f, h, rfl⟩
      · obtain ⟨ch', f', hat, heq⟩ := collectFloat_digits hwhole h hnil
        exact ⟨true, ch', f', hat, heq⟩
    obtain ⟨readed, ch₁, f₁, hat₁, heq₁⟩ := hbefore
    obtain ⟨rfl, hnext⟩ := hat₁.cons_next
    obtain ⟨ch₂, f₂, hat₂, heq₂⟩ := collectFloat_digits hfrac hnext hnef
    refine ⟨whole.length, whole ++ frac, ch₂, f₂, hat₂, ?_, fun sign => ?_⟩
    · rw [heq₁, collectFloat_point hp f₁ (by decide), heq₂, collectFloat_stop hat₂ hrest]
    · have hlen : (whole ++ frac).length - ((whole.length : ℤ)).toNat = frac.length := by
        rw [List.length_append, Int.toNat_natCast, Nat.add_sub_cancel_left]
      rw [if_neg (by omega), hlen, val_eq hwhole hfrac]

lemma IsFraction.all_isFloat (h : IsFraction part q) : ∀ c ∈ part, isFloat c = true := by
  cases h with
  | none => simp
  | point hp hne hfrac =>
    intro c hc
    rcases List.mem_cons.1 hc with rfl | hc
    · rw [isFloat, hp, Bool.true_or]
    · exact isFloat_of_isDigit (hfrac c hc)

/-- A word that is a real number is read with its value. -/
lemma readFloat_of_isReal {v : ℚ} (h : f.Sound) (hv : IsReal (word f.ahead) v) :
    ∃ d g, readFloat f = .ok (d, g) ∧ d.val = v ∧ g.ahead = afterWord f.ahead := by
  obtain ⟨sgn, s, whole, part, q, hs, hpart, hwhole, hword, hne, rfl⟩ := hv
  have hrest := head_afterWord f.ahead
  have htext := word_append f.ahead
  obtain ⟨hsign, hat⟩ := (h.fgetc.fgetcWhile isSpace).getSign
  have hfloat : ∀ c ∈ whole ++ part, isFloat c = true := by
    intro c hc
    rcases List.mem_append.1 hc with hc | hc
    · exact isFloat_of_isDigit (hwhole c hc)
    · exact hpart.all_isFloat c hc
  have hhead : (whole ++ part ++ afterWord f.ahead).head?.all isFloat = true := by
    obtain ⟨c, cs, hcons⟩ := List.exists_cons_of_ne_nil hne
    rw [hcons]
    exact hfloat c (hcons ▸ List.mem_cons_self)
  rw [hword, List.append_assoc] at htext
  rw [← htext, takeSign_append hs hhead] at hsign hat
  rw [List.append_assoc] at hat
  obtain ⟨decimal, digits, ch, g, hat', hcollect, hval⟩ :=
    collectFloat_real hpart hwhole hne hrest hat
  unfold readFloat
  dsimp only
  rw [hcollect, hsign]
  dsimp only
  rw [if_neg (by rw [hat'.ends, hrest]; simp)]
  exact ⟨_, _, rfl, hval s, hat'.goback.2⟩

lemma countP_digits (hds : ∀ c ∈ ds, c.isDigit = true) : ds.countP isPoint = 0 := by
  rw [List.countP_eq_zero]
  intro c hc hpoint
  have hdigit := hds c hc
  rw [isDigit_of_isPoint hpoint] at hdigit
  cases hdigit

/-- A fraction has one point, unless it is empty. -/
lemma IsFraction.countP (h : IsFraction part q) :
    part.countP isPoint = if part = [] then 0 else 1 := by
  cases h with
  | none => rfl
  | point hp hne hfrac =>
    rw [List.countP_cons_of_pos hp, countP_digits hfrac, if_neg (List.cons_ne_nil _ _)]

lemma IsSign.countP (h : IsSign sgn s) : sgn.countP isPoint = 0 := by
  cases h <;> rfl

/-- Digits with at most one point among them, the last one of all no point. -/
lemma exists_fraction {body : CStr} (hfloat : ∀ c ∈ body, isFloat c = true)
    (hcount : body.countP isPoint ≤ 1) (hlast : body.getLast?.any Char.isDigit = true) :
    ∃ whole part q, (∀ c ∈ whole, c.isDigit = true) ∧ IsFraction part q ∧ body = whole ++ part := by
  have hwhole : ∀ c ∈ body.takeWhile Char.isDigit, c.isDigit = true :=
    fun c hc => List.mem_takeWhile_imp hc
  have hsplit : body.takeWhile Char.isDigit ++ body.dropWhile Char.isDigit = body :=
    List.takeWhile_append_dropWhile
  cases hpart : body.dropWhile Char.isDigit with
  | nil =>
    rw [hpart] at hsplit
    exact ⟨_, [], 0, hwhole, .none, hsplit.symm⟩
  | cons p frac =>
    have hdigit : p.isDigit = false := eq_false_of_head?_dropWhile (congrArg List.head? hpart)
    rw [hpart] at hsplit
    have hmem : p ∈ body := hsplit ▸ List.mem_append_right _ List.mem_cons_self
    have hp : isPoint p = true := by
      have := hfloat p hmem
      rwa [isFloat, hdigit, Bool.or_false] at this
    rw [← hsplit, List.countP_append, List.countP_cons_of_pos hp] at hcount
    have hfrac : ∀ c ∈ frac, c.isDigit = true := by
      intro c hc
      have hnone : ¬isPoint c = true := by
        have hzero : frac.countP isPoint = 0 := by omega
        exact List.countP_eq_zero.1 hzero c hc
      have hc' := hfloat c (hsplit ▸ List.mem_append_right _ (List.mem_cons_of_mem p hc))
      rw [isFloat, Bool.or_eq_true] at hc'
      exact hc'.resolve_left hnone
    have hne : frac ≠ [] := by
      rintro rfl
      rw [← hsplit, List.getLast?_concat] at hlast
      rw [Option.any_some, hdigit] at hlast
      cases hlast
    exact ⟨_, p :: frac, _, hwhole, .point hp hne hfrac, hsplit.symm⟩

/-- The points in front of a number that is accepted, and the rest of it. -/
lemma exists_points {body : CStr} (hfloat : ∀ c ∈ body, isFloat c = true)
    (hcount : (body.dropWhile isPoint).countP isPoint ≤ 1)
    (hlast : body.getLast?.any Char.isDigit = true) :
    ∃ points whole part q, (∀ c ∈ points, isPoint c = true) ∧ (∀ c ∈ whole, c.isDigit = true) ∧
      whole ≠ [] ∧ IsFraction part q ∧ body = points ++ (whole ++ part) := by
  have hpoints : ∀ c ∈ body.takeWhile isPoint, isPoint c = true :=
    fun c hc => List.mem_takeWhile_imp hc
  have hbody : body.takeWhile isPoint ++ body.dropWhile isPoint = body :=
    List.takeWhile_append_dropWhile
  have hfloat' : ∀ c ∈ body.dropWhile isPoint, isFloat c = true :=
    fun c hc => hfloat c (List.dropWhile_subset _ hc)
  have hnot : ∀ c, (body.dropWhile isPoint).head? = some c → isPoint c = false :=
    fun c hc => eq_false_of_head?_dropWhile hc
  generalize body.takeWhile isPoint = points at hpoints hbody
  generalize body.dropWhile isPoint = after at hcount hbody hfloat' hnot
  subst hbody
  have hlast' : after.getLast?.any Char.isDigit = true := by
    rw [List.getLast?_append] at hlast
    cases hafter : after.getLast? with
    | some c => rwa [hafter] at hlast
    | none =>
      -- the last character would be a point
      rw [hafter, Option.none_or] at hlast
      obtain ⟨c, hc, hdigit⟩ := (Option.any_eq_true _ _).1 hlast
      rw [isDigit_of_isPoint (hpoints c (List.mem_of_getLast? hc))] at hdigit
      cases hdigit
  obtain ⟨whole, part, q, hwhole, hpart, rfl⟩ := exists_fraction hfloat' hcount hlast'
  refine ⟨points, whole, part, q, hpoints, hwhole, ?_, hpart, rfl⟩
  rintro rfl
  cases hpart with
  | none => cases hlast'
  | point hp hne hfrac =>
    rw [hnot _ rfl] at hp
    cases hp

/-- What is accepted is a real number, or has more than one point. -/
lemma isReal_or_slips (h : float text = some rest) :
    (∃ v, IsReal (word text) v) ∨ Slips (word text) := by
  obtain ⟨sgn, hs, htext⟩ := exists_sign (text.dropWhile isSpace)
  unfold float at h
  dsimp only at h
  set t := takeSign (text.dropWhile isSpace)
  set body := t.2.takeWhile isFloat
  split at h
  · next hgood =>
    obtain ⟨hcount, hlast, hrest⟩ := hgood
    have hfloat : ∀ c ∈ body, isFloat c = true := fun c hc => List.mem_takeWhile_imp hc
    have hsplit : text.dropWhile isSpace = (sgn ++ body) ++ t.2.dropWhile isFloat := by
      rw [List.append_assoc, List.takeWhile_append_dropWhile, ← htext]
    have hspace : ∀ c ∈ sgn ++ body, isSpace c = false := by
      intro c hc
      rcases List.mem_append.1 hc with hc | hc
      · exact hs.isSpace_eq hc
      · exact isSpace_of_isFloat (hfloat c hc)
    obtain ⟨hword, -⟩ := word_eq hsplit hspace hrest
    obtain ⟨points, whole, part, q, hpoints, hwhole, hne, hpart, hbody⟩ :=
      exists_points hfloat hcount hlast
    rw [hword, hbody]
    rcases points with - | ⟨p, points⟩
    · exact .inl ⟨_, sgn, t.1, whole, part, q, hs, hpart, hwhole, rfl, by simp [hne], rfl⟩
    · by_cases hone : points = [] ∧ part = []
      · -- the point stands before the digits
        obtain ⟨rfl, rfl⟩ := hone
        have hfraction := IsFraction.point (hpoints p List.mem_cons_self) hne hwhole
        exact .inl ⟨_, sgn, t.1, [], p :: whole, _, hs, hfraction, List.forall_mem_nil _, by simp,
          by simp, rfl⟩
      · refine .inr ⟨sgn, t.1, p :: points, whole, part, q, hs, hpart, hpoints,
          List.cons_ne_nil _ _, hwhole, hne, rfl, ?_⟩
        rw [List.length_cons, Nat.succ_le_succ_iff, Nat.one_le_iff_ne_zero, Ne,
          List.length_eq_zero_iff, ← not_and_or]
        exact hone
  · cases h

/-- Digits and a fraction end with a digit. -/
lemma getLast?_fraction {whole : CStr} (hpart : IsFraction part q)
    (hwhole : ∀ c ∈ whole, c.isDigit = true) (hne : whole ≠ []) :
    (whole ++ part).getLast?.any Char.isDigit = true := by
  have hlast : ∀ {ds : CStr}, (∀ c ∈ ds, c.isDigit = true) → ds ≠ [] →
      ds.getLast?.any Char.isDigit = true := by
    intro ds hds hds'
    rw [List.getLast?_eq_some_getLast hds', Option.any_some]
    exact hds _ (List.getLast_mem hds')
  cases hpart with
  | none =>
    rw [List.append_nil]
    exact hlast hwhole hne
  | point hp hnef hfrac =>
    rw [List.append_cons, List.getLast?_append_of_ne_nil _ hnef]
    exact hlast hfrac hnef

/-- Points in front are not counted. -/
lemma float_of_slips (h : Slips (word text)) : float text = some (afterWord text) := by
  obtain ⟨sgn, s, points, whole, part, q, hs, hpart, hpoints, hnep, hwhole, hne, hword, -⟩ := h
  have htext := word_append text
  have hrest := head_afterWord text
  have hfloat : ∀ c ∈ points ++ (whole ++ part), isFloat c = true := by
    intro c hc
    rw [List.mem_append, List.mem_append] at hc
    rcases hc with hc | hc | hc
    · rw [isFloat, hpoints c hc, Bool.true_or]
    · exact isFloat_of_isDigit (hwhole c hc)
    · exact hpart.all_isFloat c hc
  have hhead : (points ++ (whole ++ part) ++ afterWord text).head?.all isFloat = true := by
    obtain ⟨p, points, rfl⟩ := List.exists_cons_of_ne_nil hnep
    exact hfloat p List.mem_cons_self
  have hdrop : (points ++ (whole ++ part)).dropWhile isPoint = whole ++ part := by
    obtain ⟨d, whole, rfl⟩ := List.exists_cons_of_ne_nil hne
    have hd : ¬isPoint d = true := fun hpoint => by
      have hdigit := hwhole d List.mem_cons_self
      rw [isDigit_of_isPoint hpoint] at hdigit
      cases hdigit
    rw [List.dropWhile_append_of_pos hpoints, List.cons_append, List.dropWhile_cons_of_neg hd]
  have hcount : (whole ++ part).countP isPoint ≤ 1 := by
    rw [List.countP_append, countP_digits hwhole, hpart.countP]
    split <;> omega
  have hlast : (points ++ (whole ++ part)).getLast?.any Char.isDigit = true := by
    rw [List.getLast?_append_of_ne_nil _ (by simp [hne])]
    exact getLast?_fraction hpart hwhole hne
  obtain ⟨htake, hafter⟩ := takeWhile_append_space (fun _ => id) hfloat hrest
  rw [hword, List.append_assoc] at htext
  rw [float, ← htext, takeSign_append hs hhead]
  dsimp only
  rw [htake, hafter, hdrop, if_pos ⟨hcount, hlast, hrest⟩]

/-- There are two points in one, and at most one in the other. -/
lemma Slips.not_isReal {v : ℚ} (h : Slips w) : ¬IsReal w v := by
  obtain ⟨sgn, s, points, whole, part, q, hs, hpart, hpoints, hne, hwhole, -, rfl, htwo⟩ := h
  rintro ⟨sgn', s', whole', part', q', hs', hpart', hwhole', hword, -, -⟩
  have hcount := congrArg (List.countP isPoint) hword
  have hall : points.countP isPoint = points.length := List.countP_eq_length.2 hpoints
  have hpos := List.length_pos_iff.2 hne
  simp only [List.countP_append, hs.countP, hs'.countP, countP_digits hwhole,
    countP_digits hwhole', hpart.countP, hpart'.countP, hall] at hcount
  rcases htwo with htwo | hpart
  · split_ifs at hcount <;> omega
  · rw [if_neg hpart] at hcount
    split_ifs at hcount <;> omega

end real

/-- What has more than one point and is accepted is read wrongly. -/
lemma not_floatRight {f : File} (h : f.Sound) (hslips : Slips (word f.ahead)) : ¬FloatRight f := by
  rintro ⟨-, hrefuse⟩
  have hleaves := readFloat_leaves h
  obtain ⟨desc, hdesc⟩ := hrefuse fun v => hslips.not_isReal
  rw [float_of_slips hslips, hdesc] at hleaves
  obtain ⟨g, hg, -⟩ := hleaves
  cases hg

/-- A real number is read right unless more than one point stands among its digits, with all of
them but at most one in front. -/
theorem floatRight_iff {f : File} (h : f.Sound) : FloatRight f ↔ ¬Slips (word f.ahead) := by
  have hleaves := readFloat_leaves h
  constructor
  · intro hright hslips
    exact not_floatRight h hslips hright
  · intro hslips
    refine ⟨fun v hv => readFloat_of_isReal h hv, fun hnone => ?_⟩
    cases hfloat : float f.ahead with
    | none =>
      rw [hfloat] at hleaves
      obtain ⟨desc, hdesc⟩ := hleaves
      cases hread : readFloat f with
      | error desc => exact ⟨desc, rfl⟩
      | ok r =>
        rw [hread] at hdesc
        cases hdesc
    | some rest =>
      obtain ⟨v, hv⟩ | hs := isReal_or_slips hfloat
      · exact absurd hv (hnone v)
      · exact absurd hs hslips

/-- A number with one point. -/
theorem floatRight_one : FloatRight (.fopen "-3.5".toList) := by
  have hreal : IsReal "-3.5".toList _ := ⟨['-'], -1, ['3'], ['.', '5'], _, .minus,
    .point (by decide) (by decide) (by simp), by simp, rfl, by decide, rfl⟩
  exact (floatRight_iff fun h => by cases h).2 fun hslips => hslips.not_isReal hreal

/-- Two points in front of a digit are accepted. -/
theorem not_floatRight_two : ¬FloatRight (.fopen "..5".toList) ∧
    ∃ d g, readFloat (.fopen "..5".toList) = .ok (d, g) := by
  have hsound : (File.fopen "..5".toList).Sound := fun h => by cases h
  have hslips : Slips (word (File.fopen "..5".toList).ahead) := ⟨[], 1, ['.', '.'], ['5'], [], 0,
    .none, .none, by simp [isPoint], by decide, by simp, by decide, rfl, .inl (by decide)⟩
  refine ⟨not_floatRight hsound hslips, ?_⟩
  have hleaves := readFloat_leaves hsound
  rw [float_of_slips hslips] at hleaves
  obtain ⟨g, hg, -⟩ := hleaves
  cases hread : readFloat (.fopen "..5".toList) with
  | error desc =>
    rw [hread] at hg
    cases hg
  | ok r => exact ⟨r.1, r.2, rfl⟩

end WebTester.TestLib
