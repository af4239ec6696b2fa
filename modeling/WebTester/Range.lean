import WebTester.CString

/-!
# Ranges of tests

`parse_range` reads a text such as `3-12` into two numbers. It goes over the characters once
and collects the digits of a bound in a token of 16 bytes; storing a byte behind the token has
no defined effect. The number of characters is kept in an `int`.
-/
namespace WebTester.Range
open CString

/-- The variables of `parse_range`; `lo` is set when `*__from` is assigned. -/
structure Scan where
  token : CStr
  /-- `state` is 1. -/
  dash : Bool
  lo : Option ℤ
  deriving DecidableEq, Repr

/-- The result of `parse_range`, with what is assigned to `*__from` and `*__to`. -/
structure Parsed where
  code : ℤ
  lo : Option ℤ
  hi : Option ℤ
  deriving DecidableEq, Repr

/-- The loop over what is left of the text, and what comes after it. -/
def scanFrom : CStr → Scan → Option Parsed
  | [], s =>
    if s.token.length = 0 then some ⟨-1, s.lo, none⟩
    else if s.token.length < 16 then some ⟨0, s.lo, some (atol s.token)⟩
    else none
  | c :: cs, s =>
    if c.isDigit then
      if 15 < s.token.length then some ⟨-1, s.lo, none⟩
      else scanFrom cs { s with token := s.token ++ [c] }
    else if c = '-' then
      if s.token.length = 0 then some ⟨-1, s.lo, none⟩
      else if s.dash then some ⟨-1, s.lo, none⟩
      else if s.token.length < 16 then scanFrom cs ⟨[], true, some (atol s.token)⟩
      else none
    else some ⟨-1, s.lo, none⟩

def scan (text : CStr) : Option Parsed := scanFrom text ⟨[], false, none⟩

/-- The characters that the loop goes over, which are all of them in a text shorter than
2 ^ 31. -/
def counted (range : CStr) : CStr := range.take (toInt range.length).toNat

/-- `parse_range`. -/
def parseRange (range : CStr) : Option Parsed := scan (counted range)

/-- The range that `get_tests_ipc` packs tests for, if it does. A bound that is not set
cannot be compared. -/
def getTestsRange (range : CStr) : Option (Option (ℤ × ℤ)) := do
  let p ← parseRange range
  if p.code ≠ 0 then some none
  else
    let lo ← p.lo
    let hi ← p.hi
    if hi < lo then some none else some (some (lo, hi))

/-! ## The language of ranges -/

def Digits (w : CStr) : Prop := ∀ c ∈ w, c.isDigit = true

/-- One to 15 digits. -/
structure Bound (w : CStr) : Prop where
  digits : Digits w
  pos : 0 < w.length
  length_le : w.length ≤ 15

/-- Two bounds with a dash between them. -/
structure IsRange (a b range : CStr) : Prop where
  eq : range = a ++ '-' :: b
  lo : Bound a
  hi : Bound b

/-- Ranges are what is accepted, both bounds are set to their values, no byte is stored behind
the token, and `get_tests_ipc` does not use a bound that is not set. -/
def Right (range : CStr) : Prop :=
  ∃ p, parseRange range = some p ∧
    (p.code = 0 ↔ ∃ a b, IsRange a b range) ∧
    (∀ a b, IsRange a b range → p.lo = some ↑(digitsValue a) ∧ p.hi = some ↑(digitsValue b)) ∧
    (getTestsRange range).isSome

/-- A text without a bound that is missing and taken for set, and without one that fills the
token. -/
structure Fits (text : CStr) : Prop where
  dash : Digits text → 0 < text.length → 16 < text.length
  lo : ∀ a rest, text = a ++ '-' :: rest → Digits a → a.length ≠ 16
  hi : ∀ a b, text = a ++ '-' :: b → Bound a → Digits b → b.length ≠ 16

/-! ## The scanner -/

variable {text token ds rest a b : CStr} {dash : Bool} {lo : Option ℤ}

lemma atol_bound (h : Bound a) : atol a = digitsValue a := by
  have hlt := digitsValue_lt h.digits
  have hpow : 10 ^ a.length ≤ 10 ^ 15 := Nat.pow_le_pow_right (by decide) h.length_le
  exact atol_digits (List.ne_nil_of_length_pos h.pos) h.digits (by omega)

lemma scanFrom_digit {c : Char} (hc : c.isDigit = true) :
    scanFrom (c :: text) ⟨token, dash, lo⟩ =
      if 15 < token.length then some ⟨-1, lo, none⟩
      else scanFrom text ⟨token ++ [c], dash, lo⟩ := by
  rw [scanFrom, if_pos hc]

lemma scanFrom_nil : scanFrom [] ⟨token, dash, lo⟩ =
    if token.length = 0 then some ⟨-1, lo, none⟩
    else if token.length < 16 then some ⟨0, lo, some (atol token)⟩
    else none := rfl

lemma scanFrom_dash : scanFrom ('-' :: text) ⟨token, dash, lo⟩ =
    if token.length = 0 then some ⟨-1, lo, none⟩
    else if dash then some ⟨-1, lo, none⟩
    else if token.length < 16 then scanFrom text ⟨[], true, some (atol token)⟩
    else none := rfl

lemma scanFrom_other {c : Char} (hc : c.isDigit = false) (hdash : c ≠ '-') :
    scanFrom (c :: text) ⟨token, dash, lo⟩ = some ⟨-1, lo, none⟩ := by
  rw [scanFrom, if_neg (by simp [hc]), if_neg hdash]

/-- Digits that the token has room for are added to it. -/
lemma scanFrom_digits (hds : Digits ds) (hlen : token.length + ds.length ≤ 16) :
    scanFrom (ds ++ rest) ⟨token, dash, lo⟩ = scanFrom rest ⟨token ++ ds, dash, lo⟩ := by
  induction ds generalizing token with
  | nil => simp
  | cons d ds ih =>
    rw [List.length_cons] at hlen
    rw [List.cons_append, scanFrom_digit (hds d List.mem_cons_self), if_neg (by omega),
      ih (fun c hc => hds c (List.mem_cons_of_mem d hc)) (by simp; omega), List.append_assoc]
    rfl

/-- A token of digits. -/
lemma scanFrom_token (hds : Digits ds) (hlen : ds.length ≤ 16) :
    scanFrom (ds ++ rest) ⟨[], dash, lo⟩ = scanFrom rest ⟨ds, dash, lo⟩ :=
  scanFrom_digits hds (by simpa using hlen)

/-- A text that is one token. -/
lemma scanFrom_last (hds : Digits ds) (hlen : ds.length ≤ 16) :
    scanFrom ds ⟨[], dash, lo⟩ = scanFrom [] ⟨ds, dash, lo⟩ := by
  conv_lhs => rw [← List.append_nil ds, scanFrom_token hds hlen]

/-- A digit more is refused. -/
lemma scanFrom_long (hds : Digits ds) (hlen : 16 < token.length + ds.length)
    (htoken : token.length ≤ 16) :
    scanFrom (ds ++ rest) ⟨token, dash, lo⟩ = some ⟨-1, lo, none⟩ := by
  induction ds generalizing token with
  | nil =>
    rw [List.length_nil] at hlen
    omega
  | cons d ds ih =>
    rw [List.length_cons] at hlen
    rw [List.cons_append, scanFrom_digit (hds d List.mem_cons_self)]
    split
    · rfl
    · exact ih (fun c hc => hds c (List.mem_cons_of_mem d hc)) (by simp; omega) (by simp; omega)

/-- Every text is digits and something that does not begin with one. -/
lemma exists_digits (text : CStr) :
    ∃ ds rest, text = ds ++ rest ∧ Digits ds ∧ ∀ c, rest.head? = some c → c.isDigit = false := by
  refine ⟨text.takeWhile Char.isDigit, text.dropWhile Char.isDigit,
    List.takeWhile_append_dropWhile.symm, fun c hc => List.mem_takeWhile_imp hc, fun c hc => ?_⟩
  exact eq_false_of_head?_dropWhile hc

/-- After the dash, a bound is the end of a range. -/
lemma scanFrom_bound (hb : Bound b) :
    scanFrom b ⟨[], true, lo⟩ = some ⟨0, lo, some (digitsValue b)⟩ := by
  have hpos := hb.pos
  have hle := hb.length_le
  rw [scanFrom_last hb.digits (by omega), scanFrom_nil, if_neg (by omega), if_pos (by omega),
    atol_bound hb]

/-- The NUL behind 16 digits leaves the token. -/
lemma scanFrom_full (hb : Digits b) (hlen : b.length = 16) :
    scanFrom b ⟨[], dash, lo⟩ = none := by
  rw [scanFrom_last hb (by omega), scanFrom_nil, if_neg (by omega), if_neg (by omega)]

/-- After the dash, anything else is refused. -/
lemma scanFrom_refuse (hbound : ¬Bound text) (hfull : Digits text → text.length ≠ 16) :
    scanFrom text ⟨[], true, lo⟩ = some ⟨-1, lo, none⟩ := by
  obtain ⟨ds, rest, rfl, hds, hrest⟩ := exists_digits text
  by_cases hlong : 16 < ds.length
  · exact scanFrom_long hds (by simpa using hlong) (by simp)
  rw [scanFrom_token hds (by omega)]
  cases rest with
  | nil =>
    rw [List.append_nil] at hbound hfull
    have hne := hfull hds
    have hzero : ds.length = 0 := by
      by_contra hpos
      exact hbound ⟨hds, by omega, by omega⟩
    rw [scanFrom_nil, if_pos hzero]
  | cons c rest =>
    by_cases hdash : c = '-'
    · subst hdash
      rw [scanFrom_dash, if_pos rfl, ite_self]
    · exact scanFrom_other (hrest c rfl) hdash

/-- The first bound and the dash. -/
lemma scan_lo (ha : Bound a) :
    scan (a ++ '-' :: rest) = scanFrom rest ⟨[], true, some (digitsValue a)⟩ := by
  have hpos := ha.pos
  have hle := ha.length_le
  rw [scan, scanFrom_token ha.digits (by omega), scanFrom_dash, if_neg (by omega),
    if_neg (by decide), if_pos (by omega), atol_bound ha]

lemma scan_range (h : IsRange a b text) :
    scan text = some ⟨0, some (digitsValue a), some (digitsValue b)⟩ := by
  rw [h.eq, scan_lo h.lo, scanFrom_bound h.hi]

/-- What is no range is refused, unless it is read wrongly. -/
lemma scan_refuse (hfits : Fits text) (hnot : ¬∃ a b, IsRange a b text) :
    ∃ lo, scan text = some ⟨-1, lo, none⟩ := by
  obtain ⟨ds, rest, rfl, hds, hrest⟩ := exists_digits text
  by_cases hlong : 16 < ds.length
  · exact ⟨none, scanFrom_long hds (by simpa using hlong) (by simp)⟩
  by_cases hzero : ds.length = 0
  · obtain rfl := List.eq_nil_of_length_eq_zero hzero
    cases rest with
    | nil => exact ⟨none, rfl⟩
    | cons c rest =>
      by_cases hdash : c = '-'
      · subst hdash
        exact ⟨none, rfl⟩
      · exact ⟨none, scanFrom_other (hrest c rfl) hdash⟩
  cases rest with
  | nil =>
    have hdash := hfits.dash
    rw [List.append_nil] at hdash
    exact absurd (hdash hds (by omega)) hlong
  | cons c rest =>
    by_cases hdash : c = '-'
    · subst hdash
      have hne := hfits.lo ds rest rfl hds
      have hlo : Bound ds := ⟨hds, by omega, by omega⟩
      have hbound : ¬Bound rest := fun hb => hnot ⟨ds, rest, rfl, hlo, hb⟩
      exact ⟨_, (scan_lo hlo).trans (scanFrom_refuse hbound fun hd => hfits.hi ds rest rfl hlo hd)⟩
    · rw [scan, scanFrom_token hds (by omega)]
      exact ⟨none, scanFrom_other (hrest c rfl) hdash⟩

/-- A text that is read wrongly: a byte is stored behind the token, or the text is accepted
and `*__from` is not set. -/
lemma fits_of_scan (hsome : scan text ≠ none) (hset : ∀ hi, scan text ≠ some ⟨0, none, hi⟩) :
    Fits text := by
  refine ⟨fun hd hpos => ?_, fun a rest heq ha hlen => ?_, fun a b heq ha hb hlen => ?_⟩
  · by_contra hle
    by_cases hfull : text.length = 16
    · exact hsome (scanFrom_full hd hfull)
    · have hrun : scan text = some ⟨0, none, some (atol text)⟩ := by
        rw [scan, scanFrom_last hd (by omega), scanFrom_nil, if_neg (by omega), if_pos (by omega)]
      exact hset _ hrun
  · refine hsome ?_
    rw [heq, scan, scanFrom_token ha (by omega), scanFrom_dash, if_neg (by omega),
      if_neg (by decide), if_neg (by omega)]
  · refine hsome ?_
    rw [heq, scan_lo ha, scanFrom_full hb hlen]

/-! ## The claims of the callers -/

lemma counted_range (h : IsRange a b text) : counted text = text := by
  have ha := h.lo.length_le
  have hb := h.hi.length_le
  have hlen : text.length < 2 ^ 31 := by
    rw [h.eq, List.length_append, List.length_cons]
    omega
  rw [counted, toInt_natCast hlen, Int.toNat_natCast, List.take_length]

lemma parseRange_range (h : IsRange a b text) :
    parseRange text = some ⟨0, some (digitsValue a), some (digitsValue b)⟩ := by
  rw [parseRange, counted_range h, scan_range h]

/-- A refused text is not looked at, and the bounds of a range are both set. -/
lemma getTestsRange_isSome {p : Parsed} (hp : parseRange text = some p)
    (hset : p.code = 0 → p.lo.isSome ∧ p.hi.isSome) : (getTestsRange text).isSome := by
  rw [getTestsRange, hp, Option.bind_eq_bind, Option.bind_some]
  by_cases hcode : p.code = 0
  · obtain ⟨hlo, hhi⟩ := hset hcode
    obtain ⟨lo, hlo⟩ := Option.isSome_iff_exists.1 hlo
    obtain ⟨hi, hhi⟩ := Option.isSome_iff_exists.1 hhi
    simp only [if_neg (not_not.2 hcode), hlo, hhi, Option.bind_eq_bind, Option.bind_some]
    split <;> rfl
  · rw [if_pos hcode]
    rfl

/-- `parse_range` is right if and only if what it goes over is neither 1 to 16 digits without a
dash, nor has a bound of 16 digits where one may end, nor is a range without being the text. -/
theorem parseRange_right_iff (range : CStr) :
    Right range ↔ Fits (counted range) ∧
      ∀ a b, IsRange a b (counted range) → counted range = range := by
  constructor
  · rintro ⟨p, hp, hcode, hset, -⟩
    have hzero : p.code = 0 → ∃ a b, IsRange a b range ∧ p.lo = some ↑(digitsValue a) := by
      intro h
      obtain ⟨a, b, hab⟩ := hcode.1 h
      exact ⟨a, b, hab, (hset a b hab).1⟩
    refine ⟨fits_of_scan ?_ fun hi hscan => ?_, fun a b hab => ?_⟩
    · rw [← parseRange, hp]
      exact Option.some_ne_none p
    · rw [← parseRange, hp] at hscan
      cases hscan
      obtain ⟨a, b, -, hlo⟩ := hzero rfl
      cases hlo
    · have hscan := scan_range hab
      rw [← parseRange, hp] at hscan
      cases hscan
      obtain ⟨a', b', hrange, -⟩ := hzero rfl
      exact counted_range hrange
  · rintro ⟨hfits, hsame⟩
    by_cases hrange : ∃ a b, IsRange a b range
    · obtain ⟨a, b, hab⟩ := hrange
      have hscan := parseRange_range hab
      refine ⟨_, hscan, iff_of_true rfl ⟨a, b, hab⟩, fun a' b' hab' => ?_,
        getTestsRange_isSome hscan fun _ => ⟨rfl, rfl⟩⟩
      have heq := Option.some.inj (hscan.symm.trans (parseRange_range hab'))
      exact (Parsed.mk.inj heq).2
    · have hnot : ¬∃ a b, IsRange a b (counted range) := by
        rintro ⟨a, b, hab⟩
        rw [hsame a b hab] at hab
        exact hrange ⟨a, b, hab⟩
      obtain ⟨lo, hscan⟩ := scan_refuse hfits hnot
      have hcode : (-1 : ℤ) ≠ 0 := by decide
      refine ⟨_, hscan, iff_of_false hcode hrange, fun a b hab => ?_,
        getTestsRange_isSome hscan fun h => absurd h hcode⟩
      exact absurd ⟨a, b, hab⟩ hrange

/-- One number is accepted, and `get_tests_ipc` compares a bound that is not set. A bound of 16
digits is stored with its NUL behind the token. -/
theorem parseRange_wrong :
    (parseRange ['5'] = some ⟨0, none, some 5⟩ ∧ ¬Right ['5']) ∧
      parseRange "1234567890123456-1".toList = none ∧
      ¬Right "1234567890123456-1".toList := by
  have hone : parseRange ['5'] = some ⟨0, none, some 5⟩ := by decide
  have hfull : parseRange "1234567890123456-1".toList = none := by decide
  refine ⟨⟨hone, ?_⟩, hfull, ?_⟩
  · rintro ⟨-, -, -, -, htests⟩
    rw [getTestsRange, hone] at htests
    cases htests
  · rintro ⟨p, hp, -⟩
    rw [hfull] at hp
    cases hp

end WebTester.Range
