import Mathlib.Algebra.Order.Floor.Ring
import Mathlib.Data.Rat.Floor
import WebTester.Hive
import WebTester.Literals
import WebTester.Scanf

/-!
# Recognized numbers

`is_number_entry` and `flexval_atolf` scan a number each on its own. The one takes a point or a
comma between the digits and does not ask for a digit, the other ends at a comma.
-/
namespace WebTester.Numbers
open CString Literals Flexval

/-- A number without its fraction. -/
def trunc (x : ℚ) : ℤ := if 0 ≤ x then ⌊x⌋ else ⌈x⌉

/-- A `double` as a `DWORD` of 64 bits; it must fit after its fraction was cut off. -/
def toDword (x : ℚ) : Option ℕ :=
  if 0 ≤ trunc x ∧ trunc x < 2 ^ 64 then some (trunc x).toNat else none

/-- `USEC_COUNT`. -/
def usecCount : ℚ := 1000 * 1000

/-- `memory_limit` of `testing_main_loop`. -/
def memoryLimit (param : CStr) : Option ℕ := toDword ((flexvalAtolf param).1 * 1024)

/-- `time_limit` of `testing_main_loop`. -/
def timeLimit (param : CStr) : Option ℕ := toDword ((flexvalAtolf param).1 * usecCount)

/-! ## Numbers as they are written -/

/-- A number: digits with at most one separator between them, and at least one digit. -/
structure Numeral where
  negative : Bool
  whole : CStr
  separator : CStr
  fraction : CStr
  separators : separator = [] ∧ fraction = [] ∨ separator = ['.'] ∨ separator = [',']
  digits : ∀ c ∈ whole ++ fraction, c.isDigit
  nonempty : whole ++ fraction ≠ []

namespace Numeral

def sign (n : Numeral) : ℤ := if n.negative then -1 else 1

def unsigned (n : Numeral) : CStr := n.whole ++ n.separator ++ n.fraction

def text (n : Numeral) : CStr := if n.negative then '-' :: n.unsigned else n.unsigned

/-- The number that is denoted, whichever the separator. -/
def value (n : Numeral) : ℚ :=
  n.sign * (digitsValue (n.whole ++ n.fraction) / 10 ^ n.fraction.length)

end Numeral

/-- A limit is a number, but for its fraction. -/
def Applied (limit : Option ℕ) (x : ℚ) : Prop := ∃ m : ℕ, limit = some m ∧ (m : ℤ) = trunc x

/-- The string is recognized exactly when it is a number, converted to the number that it denotes,
and as a limit applied with it. -/
structure Converted (s : CStr) : Prop where
  integer : isInteger s ↔ ∃ n : Numeral, n.separator = [] ∧ n.text = s
  number : isNumber s ↔ ∃ n : Numeral, n.text = s
  value : ∀ n : Numeral, n.text = s → (flexvalAtolf s).1 = n.value
  limits : ∀ n : Numeral, n.text = s →
    Applied (memoryLimit s) (n.value * 1024) ∧ Applied (timeLimit s) (n.value * usecCount)

/-- The string has a digit if it is recognized, only zeros behind a comma, and is not negative or
too large for a limit. -/
structure Plain (s : CStr) : Prop where
  digits : s ∉ [[], ['-'], ['.'], [','], ['-', '.'], ['-', ',']]
  comma : isNumber s → ∀ u b, s = u ++ ',' :: b → ∀ c ∈ b, c = '0'
  range : ∀ n : Numeral, n.text = s → -1 < n.value * usecCount ∧ n.value * usecCount < 2 ^ 64

/-! ## What is recognized -/

section recognized

variable {s cs : CStr}

/-- Digits, with or without a separator, as they are recognized. -/
def Unsigned (cs : CStr) : Prop :=
  ∃ whole separator fraction : CStr, cs = whole ++ separator ++ fraction ∧
    (separator = [] ∧ fraction = [] ∨ separator = ['.'] ∨ separator = [',']) ∧
    ∀ c ∈ whole ++ fraction, c.isDigit

lemma unsigned_cons_digit {c : Char} (hc : c.isDigit) : Unsigned (c :: cs) ↔ Unsigned cs := by
  constructor
  · rintro ⟨whole, separator, fraction, heq, hsep, hdigits⟩
    cases whole with
    | nil =>
      obtain ⟨rfl, rfl⟩ | rfl | rfl := hsep
      · cases heq
      · exact absurd (List.cons_eq_cons.1 heq).1 (ne_of_isDigit hc (by decide))
      · exact absurd (List.cons_eq_cons.1 heq).1 (ne_of_isDigit hc (by decide))
    | cons d whole =>
      obtain ⟨rfl, rfl⟩ := List.cons_eq_cons.1 heq
      exact ⟨whole, separator, fraction, rfl, hsep,
        fun x hx => hdigits x (List.mem_cons_of_mem c hx)⟩
  · rintro ⟨whole, separator, fraction, rfl, hsep, hdigits⟩
    refine ⟨c :: whole, separator, fraction, rfl, hsep, fun x hx => ?_⟩
    obtain rfl | hx := List.mem_cons.1 hx
    · exact hc
    · exact hdigits x hx

lemma unsigned_cons_separator {c : Char} (hc : c = '.' ∨ c = ',') :
    Unsigned (c :: cs) ↔ ∀ x ∈ cs, x.isDigit := by
  have hdigit : c.isDigit = false := by
    obtain rfl | rfl := hc <;> decide
  constructor
  · rintro ⟨whole, separator, fraction, heq, hsep, hdigits⟩
    cases whole with
    | nil =>
      obtain ⟨rfl, rfl⟩ | rfl | rfl := hsep
      · cases heq
      · rw [(List.cons_eq_cons.1 heq).2]
        exact hdigits
      · rw [(List.cons_eq_cons.1 heq).2]
        exact hdigits
    | cons d whole =>
      have hd := hdigits d (by simp)
      exact absurd (List.cons_eq_cons.1 heq).1.symm (ne_of_isDigit hd hdigit)
  · intro hall
    refine ⟨[], [c], cs, rfl, .inr ?_, hall⟩
    obtain rfl | rfl := hc
    · exact .inl rfl
    · exact .inr rfl

lemma not_unsigned_cons {c : Char} (hc : c.isDigit = false) (hsep : ¬(c = '.' ∨ c = ',')) :
    ¬Unsigned (c :: cs) := by
  rintro ⟨whole, separator, fraction, heq, hseparators, hdigits⟩
  cases whole with
  | nil =>
    obtain ⟨rfl, rfl⟩ | rfl | rfl := hseparators
    · cases heq
    · exact hsep (.inl (List.cons_eq_cons.1 heq).1)
    · exact hsep (.inr (List.cons_eq_cons.1 heq).1)
  | cons d whole =>
    exact absurd (List.cons_eq_cons.1 heq).1.symm (ne_of_isDigit (hdigits d (by simp)) hc)

/-- Behind a separator there are only digits. -/
lemma isNumberEntry_decimal (cs : CStr) :
    isNumberEntry true false true cs ↔ ∀ c ∈ cs, c.isDigit := by
  induction cs with
  | nil => simp [isNumberEntry]
  | cons c cs ih =>
    by_cases hc : c.isDigit
    · have hne : ∀ d, d.isDigit = false → c ≠ d := fun d => ne_of_isDigit hc
      simp [isNumberEntry, hc, ih, hne '-' (by decide), hne '.' (by decide), hne ',' (by decide)]
    · refine iff_of_false ?_ fun hall => hc (hall c List.mem_cons_self)
      rw [isNumberEntry]
      split_ifs <;> simp_all

lemma isNumberEntry_unsigned (cs : CStr) : isNumberEntry true false false cs ↔ Unsigned cs := by
  induction cs with
  | nil =>
    refine iff_of_true rfl ⟨[], [], [], rfl, .inl ⟨rfl, rfl⟩, by simp⟩
  | cons c cs ih =>
    by_cases hc : c.isDigit
    · have hne : ∀ d, d.isDigit = false → c ≠ d := fun d => ne_of_isDigit hc
      rw [unsigned_cons_digit hc, ← ih]
      simp [isNumberEntry, hc, hne '-' (by decide), hne '.' (by decide), hne ',' (by decide)]
    · rw [Bool.not_eq_true] at hc
      by_cases hsep : c = '.' ∨ c = ','
      · rw [unsigned_cons_separator hsep, ← isNumberEntry_decimal]
        have hminus : c ≠ '-' := by
          rintro rfl
          exact absurd hsep (by decide)
        simp [isNumberEntry, hsep, hminus]
      · refine iff_of_false ?_ (not_unsigned_cons hc hsep)
        rw [isNumberEntry]
        split_ifs <;> simp_all

/-- A number is recognized by what follows its sign. -/
lemma isNumber_iff (s : CStr) : isNumber s ↔ Unsigned (takeMinus s).2 := by
  rw [← isNumberEntry_unsigned]
  cases s with
  | nil => rfl
  | cons c cs =>
    by_cases hc : c = '-'
    · subst hc
      rfl
    · have hhead : (c :: cs).head? ≠ some '-' := by simpa using hc
      rw [takeMinus_of_ne hhead]
      simp [isNumber, isNumberEntry, hc]

end recognized

/-! ## What is converted -/

section converted

/-- The value of the digits in front of what ends the loop, or of all digits with a point. -/
lemma flexvalAtolf_fst {s str : CStr} {sign : ℤ} (h : takeMinus s = (sign, str))
    (hmark : hexMark str = false) (hquote : str.head? ≠ some '\'') {val : ℚ} {total decimal : ℤ}
    (hread : readDecimal 0 0 (-1) str = (val, total, decimal)) :
    (flexvalAtolf s).1 = sign * if decimal = -1 then val
      else val / 10 ^ (total - decimal).toNat := by
  unfold flexvalAtolf
  rw [h]
  dsimp only
  rw [hmark, if_neg Bool.false_ne_true, if_neg hquote, hread, divideTens_eq]
  dsimp only
  split <;> rfl

lemma readDecimal_digits {ds : CStr} (hds : ∀ c ∈ ds, c.isDigit) (n : ℕ) (total decimal : ℤ)
    (str : CStr) : readDecimal n total decimal (ds ++ str) =
      readDecimal (10 ^ ds.length * n + digitsValue ds : ℕ) (total + ds.length) decimal str := by
  rw [readDecimal_append hds, foldl_decDigit hds]
  have hvalue : ds.foldl (fun n c => 10 * n + (c.toNat - '0'.toNat)) n =
      10 ^ ds.length * n + digitsValue ds := Nat.ofDigitChars_eq_ofDigitChars_zero
  rw [hvalue]

namespace Numeral

variable (n : Numeral)

lemma digits_whole : ∀ c ∈ n.whole, c.isDigit := fun c hc => n.digits c (by simp [hc])

lemma digits_fraction : ∀ c ∈ n.fraction, c.isDigit := fun c hc => n.digits c (by simp [hc])

lemma mem_text {c : Char} (hc : c ∈ n.whole ++ n.fraction) : c ∈ n.text := by
  have hunsigned : c ∈ n.unsigned := by
    rw [unsigned, List.mem_append, List.mem_append]
    exact (List.mem_append.1 hc).imp_left .inl
  unfold text
  split
  · exact List.mem_cons_of_mem _ hunsigned
  · exact hunsigned

lemma isDigit_or_separator {c : Char} (hc : c ∈ n.unsigned) : c.isDigit ∨ c = '.' ∨ c = ',' := by
  rw [unsigned, List.mem_append, List.mem_append] at hc
  obtain (hc | hc) | hc := hc
  · exact .inl (n.digits_whole c hc)
  · obtain ⟨hsep, -⟩ | hsep | hsep := n.separators
    · rw [hsep] at hc
      cases hc
    · rw [hsep, List.mem_singleton] at hc
      exact .inr (.inl hc)
    · rw [hsep, List.mem_singleton] at hc
      exact .inr (.inr hc)
  · exact .inl (n.digits_fraction c hc)

lemma ne_of_mem {c d : Char} (hc : c ∈ n.unsigned) (hd : d.isDigit = false)
    (hsep : ¬(d = '.' ∨ d = ',')) : c ≠ d := by
  rintro rfl
  obtain hdigit | hc := n.isDigit_or_separator hc
  · rw [hdigit] at hd
    cases hd
  · exact hsep hc

lemma takeMinus_text : takeMinus n.text = (n.sign, n.unsigned) := by
  unfold text sign
  cases n.negative with
  | true => rfl
  | false =>
    refine takeMinus_of_ne fun h => ?_
    exact n.ne_of_mem (List.mem_of_head? h) (by decide) (by decide) rfl

lemma hexMark_unsigned : hexMark n.unsigned = false := by
  have hnot : ∀ x, x.isDigit = false → ¬(x = '.' ∨ x = ',') → n.unsigned[1]? ≠ some x :=
    fun x hx hsep h => n.ne_of_mem (List.mem_of_getElem? h) hx hsep rfl
  simp [hexMark, hnot 'x' (by decide) (by decide), hnot 'X' (by decide) (by decide)]

lemma head?_unsigned_ne : n.unsigned.head? ≠ some '\'' := fun h =>
  n.ne_of_mem (List.mem_of_head? h) (by decide) (by decide) rfl

/-- What the loop of `flexval_atolf` reads of a number. -/
lemma readDecimal_unsigned : readDecimal 0 0 (-1) n.unsigned =
    if n.separator = ['.'] then
      ((digitsValue (n.whole ++ n.fraction) : ℚ), (n.whole.length + n.fraction.length : ℤ),
        (n.whole.length : ℤ))
    else ((digitsValue n.whole : ℚ), (n.whole.length : ℤ), -1) := by
  have hwhole := readDecimal_digits n.digits_whole 0 0 (-1) (n.separator ++ n.fraction)
  rw [Nat.cast_zero, Nat.mul_zero, Nat.zero_add, Int.zero_add, ← List.append_assoc] at hwhole
  rw [unsigned, hwhole]
  obtain ⟨hsep, hfraction⟩ | hsep | hsep := n.separators
  · rw [hsep, hfraction]
    rfl
  · have hfraction := readDecimal_digits n.digits_fraction (digitsValue n.whole) n.whole.length
      n.whole.length []
    rw [List.append_nil] at hfraction
    rw [hsep, if_pos rfl, List.singleton_append, readDecimal, if_pos rfl, hfraction,
      digitsValue_append]
    rfl
  · rw [hsep, if_neg (by decide)]
    rfl

/-- The part of a number that is converted. -/
lemma flexvalAtolf_text : (flexvalAtolf n.text).1 =
    if n.separator = ['.'] then n.value else n.sign * digitsValue n.whole := by
  have hread := n.readDecimal_unsigned
  by_cases hsep : n.separator = ['.']
  · rw [if_pos hsep] at hread
    have hne : (n.whole.length : ℤ) ≠ -1 := by omega
    have hlength : ((n.whole.length + n.fraction.length : ℤ) - n.whole.length).toNat =
        n.fraction.length := by omega
    rw [flexvalAtolf_fst n.takeMinus_text n.hexMark_unsigned n.head?_unsigned_ne hread, if_neg hne,
      hlength, if_pos hsep, value]
  · rw [if_neg hsep] at hread
    rw [flexvalAtolf_fst n.takeMinus_text n.hexMark_unsigned n.head?_unsigned_ne hread, if_pos rfl,
      if_neg hsep]

end Numeral

/-- Digits are worth nothing when all of them are zeros. -/
lemma digitsValue_eq_zero_iff {ds : CStr} (hds : ∀ c ∈ ds, c.isDigit) :
    digitsValue ds = 0 ↔ ∀ c ∈ ds, c = '0' := by
  induction ds with
  | nil => simp [digitsValue]
  | cons c ds ih =>
    have happend : digitsValue (c :: ds) =
        10 ^ ds.length * (c.toNat - '0'.toNat) + digitsValue ds := by
      have hcons := digitsValue_append [c] ds
      simpa [digitsValue] using hcons
    have hc := Char.isDigit_iff_toNat.1 (hds c List.mem_cons_self)
    have hzero : c.toNat - '0'.toNat = 0 ↔ c = '0' := by
      rw [← Char.toNat_inj]
      omega
    rw [happend, Nat.add_eq_zero_iff, ih fun x hx => hds x (List.mem_cons_of_mem c hx),
      List.forall_mem_cons, ← hzero, Nat.mul_eq_zero]
    simp

lemma Numeral.sign_ne_zero (n : Numeral) : (n.sign : ℚ) ≠ 0 := by
  unfold sign
  split <;> simp

/-- Behind a comma only zeros change nothing. -/
lemma flexvalAtolf_text_eq_iff (n : Numeral) : (flexvalAtolf n.text).1 = n.value ↔
    (n.separator = [','] → ∀ c ∈ n.fraction, c = '0') := by
  rw [n.flexvalAtolf_text]
  obtain ⟨hsep, hfraction⟩ | hsep | hsep := n.separators
  · rw [if_neg (by simp [hsep])]
    refine iff_of_true ?_ fun hcomma => by simp [hsep] at hcomma
    simp [Numeral.value, hfraction]
  · rw [if_pos hsep]
    exact iff_of_true rfl fun hcomma => by simp [hsep] at hcomma
  · rw [if_neg (by simp [hsep]), ← digitsValue_eq_zero_iff n.digits_fraction, Numeral.value,
      mul_right_inj' n.sign_ne_zero, eq_div_iff (by positivity), digitsValue_append]
    push_cast
    rw [mul_comm, eq_comm, add_eq_left, Nat.cast_eq_zero]
    exact ⟨fun h _ => h, fun h => h hsep⟩

end converted

/-! ## When both agree -/

section agree

variable {s : CStr}

lemma isNumber_text (n : Numeral) : isNumber n.text := by
  rw [isNumber_iff, n.takeMinus_text]
  exact ⟨n.whole, n.separator, n.fraction, rfl, n.separators, n.digits⟩

/-- A string is its sign and the rest. -/
lemma eq_takeMinus (s : CStr) :
    s = if s.head? = some '-' then '-' :: (takeMinus s).2 else (takeMinus s).2 := by
  by_cases hminus : s.head? = some '-'
  · obtain ⟨cs, rfl⟩ := List.head?_eq_some_iff.1 hminus
    rfl
  · rw [if_neg hminus, takeMinus_of_ne hminus]

/-- A string that is recognized is a number, unless it has no digit. -/
lemma exists_numeral (h : Unsigned (takeMinus s).2)
    (hdigits : s ∉ [[], ['-'], ['.'], [','], ['-', '.'], ['-', ',']]) : ∃ n : Numeral,
      n.text = s := by
  obtain ⟨whole, separator, fraction, heq, hsep, hall⟩ := h
  have hs := eq_takeMinus s
  have hne : whole ++ fraction ≠ [] := by
    intro hnil
    obtain ⟨rfl, rfl⟩ := List.append_eq_nil_iff.1 hnil
    rw [heq] at hs
    refine hdigits ?_
    rw [hs]
    obtain ⟨rfl, -⟩ | rfl | rfl := hsep <;> split <;> simp
  refine ⟨⟨s.head? = some '-', whole, separator, fraction, hsep, hall, hne⟩, ?_⟩
  conv_rhs => rw [hs, heq]
  simp only [Numeral.text, Numeral.unsigned, decide_eq_true_eq]

lemma isInteger_eq_true_iff (hdigits : s ∉ [[], ['-'], ['.'], [','], ['-', '.'], ['-', ',']]) :
    isInteger s ↔ ∃ n : Numeral, n.separator = [] ∧ n.text = s := by
  rw [isInteger_iff]
  constructor
  · intro hall
    have hs := eq_takeMinus s
    have hne : (takeMinus s).2 ++ [] ≠ [] := by
      intro hnil
      rw [List.append_nil] at hnil
      rw [hnil] at hs
      refine hdigits ?_
      rw [hs]
      split <;> simp
    refine ⟨⟨s.head? = some '-', (takeMinus s).2, [], [], .inl ⟨rfl, rfl⟩, by simpa using hall,
      hne⟩, rfl, ?_⟩
    conv_rhs => rw [hs]
    simp only [Numeral.text, Numeral.unsigned, decide_eq_true_eq, List.append_nil]
  · rintro ⟨n, hsep, rfl⟩ c hc
    rw [n.takeMinus_text] at hc
    have hfraction : n.fraction = [] := by
      obtain ⟨-, hfraction⟩ | hdot | hcomma := n.separators
      · exact hfraction
      · cases hsep.symm.trans hdot
      · cases hsep.symm.trans hcomma
    rw [Numeral.unsigned, hsep, hfraction, List.append_nil, List.append_nil] at hc
    exact n.digits_whole c hc

lemma isNumber_eq_true_iff (hdigits : s ∉ [[], ['-'], ['.'], [','], ['-', '.'], ['-', ',']]) :
    isNumber s ↔ ∃ n : Numeral, n.text = s := by
  constructor
  · intro h
    exact exists_numeral ((isNumber_iff s).1 h) hdigits
  · rintro ⟨n, rfl⟩
    exact isNumber_text n

/-- The comma of a number, wherever it is found. -/
lemma comma_unique (n : Numeral) {u b : CStr} (h : n.text = u ++ ',' :: b) :
    n.separator = [','] ∧ n.fraction = b := by
  have hnot : ∀ ds : CStr, (∀ c ∈ ds, c.isDigit) → ',' ∉ ds :=
    fun ds hds hmem => absurd (hds _ hmem) (by decide)
  have hfraction := hnot _ n.digits_fraction
  have hfront : ',' ∉ (if n.negative then ['-'] else []) ++ n.whole := by
    rw [List.mem_append, not_or]
    refine ⟨?_, hnot _ n.digits_whole⟩
    split <;> simp
  have htext : n.text =
      (if n.negative then ['-'] else []) ++ n.whole ++ (n.separator ++ n.fraction) := by
    unfold Numeral.text Numeral.unsigned
    split <;> simp
  rw [htext] at h
  have hsep : n.separator = [','] := by
    have hmem : ',' ∈ u ++ ',' :: b := by simp
    rw [← h, List.mem_append, or_iff_right hfront, List.mem_append, or_iff_left hfraction] at hmem
    obtain ⟨hsep, -⟩ | hsep | hsep := n.separators
    · simp [hsep] at hmem
    · simp [hsep] at hmem
    · exact hsep
  rw [hsep, List.singleton_append, List.append_cons_inj_of_notMem hfront hfraction] at h
  exact ⟨hsep, h.2.2⟩

/-- What fits into a `DWORD` but for its fraction. -/
lemma applied_toDword_iff {x : ℚ} : Applied (toDword x) x ↔ -1 < x ∧ x < 2 ^ 64 := by
  have hrange : (0 ≤ trunc x ∧ trunc x < 2 ^ 64) ↔ -1 < x ∧ x < 2 ^ 64 := by
    unfold trunc
    split_ifs with hx
    · rw [Int.floor_nonneg, Int.floor_lt]
      push_cast
      exact ⟨fun h => ⟨by linarith, h.2⟩, fun h => ⟨hx, h.2⟩⟩
    · have hle : ⌈x⌉ ≤ 0 := Int.ceil_le.2 (by push_cast; linarith)
      have hceil : 0 ≤ ⌈x⌉ ↔ -1 < x := by
        rw [← Int.sub_one_lt_iff, Int.lt_ceil]
        push_cast
        norm_num
      exact ⟨fun h => ⟨hceil.1 h.1, by linarith⟩, fun h => ⟨hceil.2 h.1, by omega⟩⟩
  rw [← hrange, toDword]
  constructor
  · rintro ⟨m, hm, -⟩
    by_contra hnot
    rw [if_neg hnot] at hm
    cases hm
  · intro h
    rw [if_pos h]
    exact ⟨_, rfl, Int.toNat_of_nonneg h.1⟩

lemma applied_iff_of_value {n : Numeral} (hvalue : (flexvalAtolf n.text).1 = n.value) :
    (Applied (memoryLimit n.text) (n.value * 1024) ∧
      Applied (timeLimit n.text) (n.value * usecCount)) ↔
    -1 < n.value * usecCount ∧ n.value * usecCount < 2 ^ 64 := by
  rw [memoryLimit, timeLimit, hvalue, applied_toDword_iff, applied_toDword_iff]
  refine ⟨And.right, fun h => ⟨?_, h⟩⟩
  unfold usecCount at h
  constructor
  · linarith [h.1]
  · linarith [h.2]

lemma Converted.plain (h : Converted s) : Plain s where
  digits := by
    intro hmem
    have hrecognized : ∀ t ∈ [[], ['-'], ['.'], [','], ['-', '.'], ['-', ',']],
        isNumber t ∧ ∀ c ∈ t, c.isDigit = false := by
      simp [isNumber, isNumberEntry]
    obtain ⟨hnumber, hnone⟩ := hrecognized s hmem
    obtain ⟨n, hn⟩ := h.number.1 hnumber
    obtain ⟨c, hc⟩ := List.exists_mem_of_ne_nil _ n.nonempty
    have hdigit := n.digits c hc
    rw [hnone c (hn ▸ n.mem_text hc)] at hdigit
    cases hdigit
  comma hnumber u b heq := by
    obtain ⟨n, hn⟩ := h.number.1 hnumber
    obtain ⟨hsep, rfl⟩ := comma_unique n (hn.trans heq)
    exact (flexvalAtolf_text_eq_iff n).1 (hn ▸ h.value n hn) hsep
  range := by
    rintro n rfl
    exact (applied_iff_of_value (h.value n rfl)).1 (h.limits n rfl)

lemma Plain.converted (h : Plain s) : Converted s := by
  have hvalue : ∀ n : Numeral, n.text = s → (flexvalAtolf s).1 = n.value := by
    rintro n rfl
    refine (flexvalAtolf_text_eq_iff n).2 fun hsep => ?_
    refine h.comma (isNumber_text n) ((if n.negative then ['-'] else []) ++ n.whole) _ ?_
    unfold Numeral.text Numeral.unsigned
    rw [hsep]
    split <;> simp
  refine ⟨isInteger_eq_true_iff h.digits, isNumber_eq_true_iff h.digits, hvalue, ?_⟩
  rintro n rfl
  exact (applied_iff_of_value (hvalue n rfl)).2 (h.range n rfl)

/-- A string is recognized, converted and applied right exactly when it is not a number without
digits, no comma in it cuts off digits other than zeros, and it is a limit that fits. -/
theorem converted_iff (s : CStr) : Converted s ↔ Plain s :=
  ⟨Converted.plain, Plain.converted⟩

/-- A limit with a comma counts only up to it; a lone sign is a number; a negative limit is none. -/
theorem comma_cuts_number :
    ¬Converted ['1', ',', '5'] ∧ ¬Converted ['-'] ∧ ¬Converted ['-', '1'] := by
  refine ⟨?_, ?_, ?_⟩
  · intro h
    exact absurd (h.plain.comma (by decide) ['1'] ['5'] rfl '5' (by simp)) (by decide)
  · intro h
    exact absurd h.plain.digits (by decide)
  · intro h
    have hrange := h.plain.range
      ⟨true, ['1'], [], [], .inl ⟨rfl, rfl⟩, by simp, by simp⟩ rfl
    have hdigit : digitsValue (['1'] ++ []) = 1 := rfl
    rw [Numeral.value, hdigit] at hrange
    norm_num [Numeral.sign, usecCount] at hrange

end agree

end WebTester.Numbers
