import WebTester.Scanf
import WebTester.Transition

/-!
# The blacklist and its file

Addresses are kept in memory with the time they were blacklisted at, and in a text file with a date.
The clock and the calendar of the C library are parameters. The list is a `dynastruc_t`; its
operations are those of a list. The parser sets six fields of a `struct tm` and gives it to
`mktime`, which also looks at `tm_isdst`: there it finds what the stack holds.
-/
namespace WebTester.Blacklist
open CString Flexval Scanf Transition

/-- The fields of a `struct tm` that are printed and read. -/
structure Tm where
  year : ℤ
  mon : ℤ
  mday : ℤ
  hour : ℤ
  min : ℤ
  sec : ℤ
  deriving DecidableEq

/-- The ranges of the fields. The year counts from 1900 and is an `int`. -/
structure Tm.Valid (tm : Tm) : Prop where
  year : -2 ^ 31 ≤ tm.year ∧ tm.year < 2 ^ 31
  mon : 0 ≤ tm.mon ∧ tm.mon ≤ 11
  mday : 1 ≤ tm.mday ∧ tm.mday ≤ 31
  hour : 0 ≤ tm.hour ∧ tm.hour ≤ 23
  min : 0 ≤ tm.min ∧ tm.min ≤ 59
  sec : 0 ≤ tm.sec ∧ tm.sec ≤ 60

/-- `localtime`, which has no result for a time whose year is too large, and `mktime`, which
inverts it. Both have `tm_isdst` beside the six fields. -/
structure Calendar where
  localtime : ℤ → Option (Tm × ℤ)
  mktime : Tm → ℤ → ℤ
  valid : ∀ t tm isdst, localtime t = some (tm, isdst) → tm.Valid
  mktime_localtime : ∀ t tm isdst, localtime t = some (tm, isdst) → mktime tm isdst = t

/-- `blacklist_item_t`: the address and its NUL are in an array of 32 characters. -/
structure Item where
  ip : CStr
  timestamp : ℤ
  fits : ip.length < 32
  deriving DecidableEq

/-- `%d.%d.….%d` of `snprintf`. -/
def dotted : List ℤ → CStr
  | [] => []
  | [x] => printLong x
  | x :: xs => printLong x ++ '.' :: dotted xs

/-- `%d.%d.….%d` of `sscanf`. -/
def dottedFormat : ℕ → List Directive
  | 0 => []
  | 1 => [.int]
  | n + 1 => .int :: .lit '.' :: dottedFormat n

/-- `" %ld-%d:%d:%d\n"`, with the white space before the date and at the end of the line. -/
def dateFormat : List Directive :=
  [.space, .long, .lit '-', .int, .lit ':', .int, .lit ':', .int, .space]

/-- The item of an entry whose address and date were read. -/
def entryItem (cal : Calendar) (isdst : ℤ) (octets : List ℤ) (ltime hour min sec : ℤ) :
    Option Item :=
  -- `GOOD_OCTET` names its argument `__a` and tests the variable `a`, the first number
  if 0 ≤ octets.headD 0 ∧ octets.headD 0 ≤ 255 then
    let t := cal.mktime ⟨toInt (ltime.tdiv 10000 - 1900), (ltime.tdiv 100).tmod 100 - 1,
      ltime.tmod 100 - 1, hour, min, sec⟩ isdst
    if t = -1 then none
    else some ⟨(dotted octets).take 31, t, by rw [List.length_take]; omega⟩
  else none

/-- `parse_blacklist_entry`, where the stack holds `isdst` in the place of `tm_isdst`. -/
def parseBlacklistEntry (cal : Calendar) (isdst : ℤ) (token : CStr) : Option Item :=
  let self := token.dropWhile fun c => schar c ≤ schar ' '
  if self.head? = some '#' ∨ self.head? = some ';' then none
  else match sscanf (dottedFormat 4 ++ dateFormat) self with
    | [a, b, c, d, ltime, hour, min, sec] => entryItem cal isdst [a, b, c, d] ltime hour min sec
    | _ => match sscanf (dottedFormat 6 ++ dateFormat) self with
      | [a, b, c, d, e, f, ltime, hour, min, sec] =>
        entryItem cal isdst [a, b, c, d, e, f] ltime hour min sec
      | _ => none

/-- `fgets`: at most so many characters, through the end of the line, and what is left. -/
def fgets : ℕ → CStr → CStr × CStr
  | 0, stream => ([], stream)
  | _, [] => ([], [])
  | n + 1, c :: stream =>
    if c = '\n' then ([c], stream) else (c :: (fgets n stream).1, (fgets n stream).2)

/-- What the calls of `fgets` leave in `token` until the end of the file. -/
def tokens : ℕ → CStr → List CStr
  | 0, _ => []
  | _, [] => []
  | n + 1, stream => (fgets 1023 stream).1 :: tokens n (fgets 1023 stream).2

/-- The parser gets a token to its NUL; `found` is what its calls find in `tm_isdst`. -/
def readToken (cal : Calendar) (found : ℕ → ℤ) (token : CStr × ℕ) : Option Item :=
  parseBlacklistEntry cal (found token.2) (token.1.takeWhile (· ≠ '\x00'))

/-- `read_blacklisted`. Every call of `fgets` takes a character, so that their number is the
fuel. -/
def readBlacklisted (cal : Calendar) (found : ℕ → ℤ) (file : CStr) : List Item :=
  (tokens file.length file).zipIdx.filterMap (readToken cal found)

/-- The date of a line, `%d%02d%02d-%02d:%02d:%02d`. -/
def dateText (data : Tm) : CStr :=
  printLong (toInt (data.year + 1900)) ++ print02 (data.mon + 1) ++ print02 (data.mday + 1) ++
    '-' :: print02 data.hour ++ ':' :: print02 data.min ++ ':' :: print02 data.sec

/-- The line of an item, without a result when `localtime` has none. -/
def itemLine (cal : Calendar) (item : Item) : Option CStr :=
  (cal.localtime item.timestamp).map fun (data, _) => item.ip ++ ['\t', '\t'] ++ dateText data

def banner : CStr := '#' :: " This file is automatically saved by webtester".toList

/-- `flush_blacklist`: the new content of the file. -/
def flushBlacklist (cal : Calendar) (list : List Item) : Option CStr :=
  (list.mapM (itemLine cal)).map fun lines =>
    ((banner :: [] :: lines).map fun line => line ++ ['\n']).flatten

/-- The list in memory and the file. -/
structure State where
  file : CStr
  list : List Item
  deriving DecidableEq

/-- `ipc_blacklist_init`. -/
def ipcBlacklistInit (cal : Calendar) (found : ℕ → ℤ) (file : CStr) : State :=
  ⟨file, readBlacklisted cal found file⟩

/-- `blacklist_ip`: the time -1 stands for the present. -/
def blacklistIp (list : List Item) (item : Item) (now : ℕ) : List Item :=
  list ++ [if item.timestamp = -1 then { item with timestamp := now } else item]

/-- `unblacklist_ip`: the search goes on behind the node that was deleted, to the end of the
list. -/
def unblacklistIp (list : List Item) (ip : CStr) : List Item := list.filter fun item => item.ip ≠ ip

/-- `ipc_blacklist_ip`. -/
def ipcBlacklistIp (cal : Calendar) (s : State) (item : Item) (now : ℕ) : Option State :=
  (flushBlacklist cal (blacklistIp s.list item now)).map fun file =>
    ⟨file, blacklistIp s.list item now⟩

/-- `ipc_unblacklist_ip`. -/
def ipcUnblacklistIp (s : State) (ip : CStr) : State := { s with list := unblacklistIp s.list ip }

/-- What `ipc_blacklisted` leaves in the list. -/
def current (resetTimeout : ℤ) (list : List Item) (now : ℕ) : List Item :=
  list.filter fun item => ¬(0 < resetTimeout ∧ resetTimeout ≤ now - item.timestamp)

/-- `ipc_blacklisted`, with its answer. -/
def ipcBlacklisted (cal : Calendar) (resetTimeout : ℤ) (s : State) (ip : CStr) (now : ℕ) :
    Option (State × Bool) :=
  let list := current resetTimeout s.list now
  let res := list.any fun item => item.ip = ip
  if list = s.list then some (s, res)
  else (flushBlacklist cal list).map fun file => (⟨file, list⟩, res)

/-- A dotted IPv4 address. -/
structure IPv4 where
  a : Fin 256
  b : Fin 256
  c : Fin 256
  d : Fin 256
  deriving DecidableEq

namespace IPv4

def octets (ip : IPv4) : List ℤ := [ip.a, ip.b, ip.c, ip.d]

def text (ip : IPv4) : CStr := dotted ip.octets

end IPv4

/-! ## Reading what was printed -/

/-- Numbers of an address: an `int` each, the first one an octet. -/
structure Address (parts : List ℤ) : Prop where
  length : parts.length = 4 ∨ parts.length = 6
  range : ∀ x ∈ parts, -2 ^ 31 ≤ x ∧ x < 2 ^ 31
  head : 0 ≤ parts.headD 0 ∧ parts.headD 0 ≤ 255

variable {parts : List ℤ} {ds : List Directive} {rest : CStr}

lemma sscanf_dotted (hne : parts ≠ []) (hrange : ∀ x ∈ parts, -2 ^ 31 ≤ x ∧ x < 2 ^ 31)
    (hrest : Stops rest) :
    sscanf (dottedFormat parts.length ++ ds) (dotted parts ++ rest) = parts ++ sscanf ds rest := by
  induction parts with
  | nil => exact absurd rfl hne
  | cons x xs ih =>
    obtain ⟨hlo, hhi⟩ := hrange x List.mem_cons_self
    cases xs with
    | nil => exact sscanf_int_printLong hlo hhi hrest
    | cons y ys =>
      have hxs := ih (by simp) fun z hz => hrange z (List.mem_cons_of_mem x hz)
      have hstops : Stops ('.' :: (dotted (y :: ys) ++ rest)) := stops_cons (by decide)
      have htext : dotted (x :: y :: ys) ++ rest =
          printLong x ++ '.' :: (dotted (y :: ys) ++ rest) := by simp [dotted]
      rw [htext]
      change sscanf (.int :: .lit '.' :: (dottedFormat (y :: ys).length ++ ds)) _ = _
      rw [sscanf_int_printLong hlo hhi hstops, sscanf_lit, hxs]
      rfl

/-- Year, month and day in one number. -/
def dateNumber (data : Tm) : ℤ :=
  toInt (data.year + 1900) * 10000 + (data.mon + 1) * 100 + (data.mday + 1)

/-- The year is printed without a sign. -/
lemma digits_date {data : Tm} (h : data.Valid) (hyear : 0 ≤ toInt (data.year + 1900)) :
    ∃ digits, printLong (toInt (data.year + 1900)) ++ print02 (data.mon + 1) ++
        print02 (data.mday + 1) = digits ∧ digits ≠ [] ∧ (∀ c ∈ digits, c.isDigit = true) ∧
      (digitsValue digits : ℤ) = dateNumber data := by
  obtain ⟨hmonLength, hmonDigits, hmonValue⟩ :=
    @print02_spec (data.mon + 1) (by have := h.mon; omega) (by have := h.mon; omega)
  obtain ⟨hdayLength, hdayDigits, hdayValue⟩ :=
    @print02_spec (data.mday + 1) (by have := h.mday; omega) (by have := h.mday; omega)
  have hprint : printLong (toInt (data.year + 1900)) =
      decimal (toInt (data.year + 1900)).natAbs := if_neg (by omega)
  refine ⟨_, rfl, ?_, ?_, ?_⟩
  · rw [hprint]
    simp [decimal_ne_nil]
  · intro c hc
    rw [hprint] at hc
    simp only [List.mem_append] at hc
    rcases hc with (hc | hc) | hc
    · exact isDigit_of_mem_decimal hc
    · exact hmonDigits c hc
    · exact hdayDigits c hc
  · rw [hprint, digitsValue_append, digitsValue_append, digitsValue_decimal, hmonLength, hdayLength]
    unfold dateNumber
    simp only [Int.natCast_add, Int.natCast_mul, Int.natCast_pow, Int.cast_ofNat_Int]
    rw [hmonValue, hdayValue]
    omega

/-- The values that are read from the white space, the date and the end of a line. -/
lemma sscanf_date {data : Tm} (h : data.Valid) (hyear : 0 ≤ toInt (data.year + 1900)) :
    sscanf dateFormat (['\t', '\t'] ++ (dateText data ++ ['\n'])) =
      [dateNumber data, data.hour, data.min, data.sec] := by
  obtain ⟨digits, hdigits, hne, hall, hvalue⟩ := digits_date h hyear
  have htext : dateText data ++ ['\n'] = digits ++ '-' :: (print02 data.hour ++
      ':' :: (print02 data.min ++ ':' :: (print02 data.sec ++ ['\n']))) := by
    rw [← hdigits]
    simp [dateText]
  have hlt : digitsValue digits < 2 ^ 63 := by
    have hint : toInt (data.year + 1900) < 2 ^ 31 := by
      have := @Int.bmod_lt (data.year + 1900) (2 ^ 32) (by decide)
      unfold toInt
      omega
    have := h.mon
    have := h.mday
    unfold dateNumber at hvalue
    omega
  obtain ⟨c, cs, rfl⟩ := List.exists_cons_of_ne_nil hne
  have hspace : isSpace c = false := isSpace_of_isDigit (hall c List.mem_cons_self)
  rw [htext, dateFormat, sscanf_space (by simp [hspace]) (by simp [isSpace]),
    sscanf_long_digits hne hall hlt (stops_cons (by decide)), sscanf_lit,
    sscanf_int_print02 (by have := h.hour; omega) (by have := h.hour; omega)
      (stops_cons (by decide)), sscanf_lit,
    sscanf_int_print02 (by have := h.min; omega) (by have := h.min; omega)
      (stops_cons (by decide)), sscanf_lit,
    sscanf_int_print02 (by have := h.sec; omega) (by have := h.sec; omega)
      (stops_cons (by decide)), hvalue]
  rfl

/-- A printed year without a sign did not overflow. -/
lemma toInt_year {data : Tm} (h : data.Valid) (hyear : 0 ≤ toInt (data.year + 1900)) :
    toInt (data.year + 1900) = data.year + 1900 := by
  obtain ⟨hlo, hhi⟩ := h.year
  rw [toInt_eq_emod] at hyear ⊢
  split at hyear <;> omega

/-- The fields that are read are those that were printed, the day and the month shifted back. -/
lemma entryItem_date {cal : Calendar} {isdst : ℤ} {item : Item} {data : Tm}
    (hparts : Address parts) (hip : item.ip = dotted parts) (h : data.Valid)
    (hyear : 0 ≤ toInt (data.year + 1900)) (hmktime : cal.mktime data isdst = item.timestamp)
    (hts : item.timestamp ≠ -1) :
    entryItem cal isdst parts (dateNumber data) data.hour data.min data.sec = some item := by
  have htake : (dotted parts).take 31 = item.ip := by
    rw [← hip]
    exact List.take_of_length_le (Nat.le_of_lt_succ item.fits)
  have hdate : toInt ((dateNumber data).tdiv 10000 - 1900) = data.year ∧
      ((dateNumber data).tdiv 100).tmod 100 - 1 = data.mon ∧
      (dateNumber data).tmod 100 - 1 = data.mday := by
    obtain ⟨hmonLo, hmonHi⟩ := h.mon
    obtain ⟨hdayLo, hdayHi⟩ := h.mday
    have hnumber : dateNumber data =
        (data.year + 1900) * 10000 + (data.mon + 1) * 100 + (data.mday + 1) := by
      rw [dateNumber, toInt_year h hyear]
    rw [toInt_year h hyear] at hyear
    have hnonneg : 0 ≤ dateNumber data := by omega
    rw [Int.tdiv_eq_ediv_of_nonneg hnonneg, Int.tdiv_eq_ediv_of_nonneg hnonneg,
      Int.tmod_eq_emod_of_nonneg (by omega), Int.tmod_eq_emod_of_nonneg hnonneg]
    have hdiv : dateNumber data / 10000 - 1900 = data.year := by omega
    refine ⟨?_, by omega, by omega⟩
    rw [hdiv]
    exact Int.bmod_eq_of_le (by have := h.year; omega) (by have := h.year; omega)
  obtain ⟨hyearEq, hmonEq, hdayEq⟩ := hdate
  unfold entryItem
  rw [if_pos hparts.head]
  simp only [hyearEq, hmonEq, hdayEq, hmktime, hts, if_false, htake]

/-- An address starts with a digit. -/
lemma dotted_head (h : Address parts) :
    ∃ c cs, dotted parts = c :: cs ∧ c.isDigit = true := by
  obtain ⟨x, xs, rfl⟩ : ∃ x xs, parts = x :: xs := by
    apply List.exists_cons_of_ne_nil
    rintro rfl
    simpa using h.length
  have hx : 0 ≤ x := h.head.1
  have hprint : printLong x = decimal x.natAbs := if_neg (by omega)
  obtain ⟨c, cs, hcs⟩ := List.exists_cons_of_ne_nil (decimal_ne_nil x.natAbs)
  have hc : c.isDigit = true := isDigit_of_mem_decimal (by rw [hcs]; exact List.mem_cons_self)
  cases xs with
  | nil => exact ⟨c, cs, by rw [dotted, hprint, hcs], hc⟩
  | cons y ys => exact ⟨c, cs ++ '.' :: dotted (y :: ys), by simp [dotted, hprint, hcs], hc⟩

lemma skip_digit {c : Char} (h : c.isDigit = true) :
    ¬schar c ≤ schar ' ' ∧ c ≠ '#' ∧ c ≠ ';' := by
  have hrange := Char.isDigit_iff_toNat.1 h
  simp only [Char.reduceToNat] at hrange
  have hschar : schar c = c.toNat := by
    unfold schar
    exact Int.bmod_eq_of_le (by omega) (by omega)
  have hspace : schar ' ' = 32 := by decide
  refine ⟨by omega, ?_, ?_⟩
  · rintro rfl
    exact absurd h (by decide)
  · rintro rfl
    exact absurd h (by decide)

/-- No date follows the fourth number of an address of six. -/
lemma sscanf_date_point : sscanf dateFormat ('.' :: rest) = [] := by
  have hskip : ('.' :: rest).dropWhile isSpace = '.' :: rest :=
    List.dropWhile_cons_of_neg (by decide)
  have hscan : scanNumber ('.' :: rest) = none := by
    unfold scanNumber
    rw [hskip]
    rfl
  rw [dateFormat, sscanf, hskip, sscanf, hscan]

/-- An address is read whether it has four numbers or six. -/
lemma parse_dotted {cal : Calendar} {isdst ltime hour min sec : ℤ} (h : Address parts)
    (hrest : Stops rest) (hdate : sscanf dateFormat rest = [ltime, hour, min, sec]) :
    parseBlacklistEntry cal isdst (dotted parts ++ rest) =
      entryItem cal isdst parts ltime hour min sec := by
  obtain ⟨c, cs, hcs, hc⟩ := dotted_head h
  obtain ⟨hskip, hhash, hsemi⟩ := skip_digit hc
  have hself : (dotted parts ++ rest).dropWhile (fun c => schar c ≤ schar ' ') =
      dotted parts ++ rest := by
    rw [hcs]
    exact List.dropWhile_cons_of_neg (by simpa using hskip)
  have hhead : ¬((dotted parts ++ rest).head? = some '#' ∨
      (dotted parts ++ rest).head? = some ';') := by
    rw [hcs]
    simp [hhash, hsemi]
  unfold parseBlacklistEntry
  rw [hself]
  dsimp only
  rw [if_neg hhead]
  obtain hlength | hlength := h.length
  · obtain ⟨a, b, c, d, rfl⟩ := List.length_eq_four.1 hlength
    have hscan : sscanf (dottedFormat 4 ++ dateFormat) (dotted [a, b, c, d] ++ rest) =
        [a, b, c, d] ++ sscanf dateFormat rest := sscanf_dotted (by simp) h.range hrest
    rw [hscan, hdate]
    rfl
  · obtain ⟨a, b, c, d, e, f, rfl⟩ : ∃ a b c d e f, parts = [a, b, c, d, e, f] := by
      match parts, hlength with
      | [a, b, c, d, e, f], _ => exact ⟨a, b, c, d, e, f, rfl⟩
    have hsplit : dotted [a, b, c, d, e, f] ++ rest =
        dotted [a, b, c, d] ++ '.' :: (dotted [e, f] ++ rest) := by simp [dotted]
    have hfour : sscanf (dottedFormat 4 ++ dateFormat) (dotted [a, b, c, d, e, f] ++ rest) =
        [a, b, c, d] ++ sscanf dateFormat ('.' :: (dotted [e, f] ++ rest)) := by
      have hrange : ∀ x ∈ [a, b, c, d], -2 ^ 31 ≤ x ∧ x < 2 ^ 31 := by
        intro x hx
        exact h.range x (List.mem_append_left [e, f] hx)
      rw [hsplit]
      exact sscanf_dotted (by simp) hrange (stops_cons (by decide))
    have hscan : sscanf (dottedFormat 6 ++ dateFormat) (dotted [a, b, c, d, e, f] ++ rest) =
        [a, b, c, d, e, f] ++ sscanf dateFormat rest := sscanf_dotted (by simp) h.range hrest
    rw [hfour, sscanf_date_point, hscan, hdate]
    rfl

/-- The line of an item is read as the item. -/
lemma parse_line {cal : Calendar} {isdst : ℤ} {item : Item} {data : Tm} (hparts : Address parts)
    (hip : item.ip = dotted parts) (h : data.Valid) (hyear : 0 ≤ toInt (data.year + 1900))
    (hmktime : cal.mktime data isdst = item.timestamp) (hts : item.timestamp ≠ -1) :
    parseBlacklistEntry cal isdst (item.ip ++ ['\t', '\t'] ++ dateText data ++ ['\n']) =
      some item := by
  have hdate := sscanf_date h hyear
  have hstops : Stops (['\t', '\t'] ++ (dateText data ++ ['\n'])) := stops_cons (by decide)
  rw [List.append_assoc, List.append_assoc, hip, parse_dotted hparts hstops hdate]
  exact entryItem_date hparts hip h hyear hmktime hts

/-! ## The lines of the file -/

/-- An address that was not cut, a year that is printed without a sign, and a date from which
`mktime` gets the time with every value that the parser can find in `tm_isdst`. -/
def Item.Printable (cal : Calendar) (stale : Set ℤ) (item : Item) : Prop :=
  (∃ parts, Address parts ∧ item.ip = dotted parts) ∧
    ∀ data isdst, cal.localtime item.timestamp = some (data, isdst) →
      0 ≤ toInt (data.year + 1900) ∧ ∀ flag ∈ stale, cal.mktime data flag = item.timestamp

/-- A line that one call of `fgets` reads and that the parser sees to its end. -/
structure Line (line : CStr) : Prop where
  newline : '\n' ∉ line
  nul : '\x00' ∉ line
  length : line.length < 1023

lemma notMem_dotted {c : Char} (hd : c.isDigit = false) (hm : c ≠ '-') (hp : c ≠ '.')
    (parts : List ℤ) : c ∉ dotted parts := by
  induction parts with
  | nil => simp [dotted]
  | cons x xs ih =>
    have hx := notMem_printLong hd hm x
    cases xs with
    | nil => exact hx
    | cons y ys => simp [dotted, hx, hp, ih]

lemma notMem_dateText {c : Char} (hd : c.isDigit = false) (hm : c ≠ '-') (hc : c ≠ ':')
    (data : Tm) : c ∉ dateText data := by
  simp [dateText, notMem_printLong hd hm, notMem_print02 hd hm, hm, hc]

lemma length_dateText {data : Tm} (h : data.Valid) (hyear : 0 ≤ toInt (data.year + 1900)) :
    (dateText data).length ≤ 24 := by
  obtain ⟨hmon, -⟩ :=
    @print02_spec (data.mon + 1) (by have := h.mon; omega) (by have := h.mon; omega)
  obtain ⟨hday, -⟩ :=
    @print02_spec (data.mday + 1) (by have := h.mday; omega) (by have := h.mday; omega)
  obtain ⟨hhour, -⟩ := @print02_spec data.hour (by have := h.hour; omega) (by have := h.hour; omega)
  obtain ⟨hmin, -⟩ := @print02_spec data.min (by have := h.min; omega) (by have := h.min; omega)
  obtain ⟨hsec, -⟩ := @print02_spec data.sec (by have := h.sec; omega) (by have := h.sec; omega)
  have hprint : printLong (toInt (data.year + 1900)) =
      decimal (toInt (data.year + 1900)).natAbs := if_neg (by omega)
  have hlt : (toInt (data.year + 1900)).natAbs < 10 ^ 10 := by
    have heq := toInt_year h hyear
    have := h.year
    omega
  have hyearLength : (decimal (toInt (data.year + 1900)).natAbs).length ≤ 10 :=
    (Nat.length_toDigits_le_iff (by decide) (by decide)).2 hlt
  unfold dateText
  rw [hprint]
  simp only [List.length_append, List.length_cons, hmon, hday, hhour, hmin, hsec]
  omega

lemma line_item {cal : Calendar} {stale : Set ℤ} {item : Item} {data : Tm} {isdst : ℤ}
    (h : item.Printable cal stale) (hdata : cal.localtime item.timestamp = some (data, isdst)) :
    Line (item.ip ++ ['\t', '\t'] ++ dateText data) := by
  obtain ⟨⟨parts, -, hip⟩, hdate⟩ := h
  have hlength := length_dateText (cal.valid _ _ _ hdata) (hdate data isdst hdata).1
  have hplain : ∀ c : Char, c.isDigit = false → c ≠ '-' → c ≠ '.' → c ≠ '\t' → c ≠ ':' →
      c ∉ item.ip ++ ['\t', '\t'] ++ dateText data := by
    intro c hd hm hp ht hc
    rw [hip]
    simp [notMem_dotted hd hm hp, notMem_dateText hd hm hc, ht]
  refine ⟨?_, ?_, ?_⟩
  · exact hplain _ (by decide) (by decide) (by decide) (by decide) (by decide)
  · exact hplain _ (by decide) (by decide) (by decide) (by decide) (by decide)
  · have := item.fits
    simp only [List.length_append, List.length_cons, List.length_nil]
    omega

lemma fgets_line {n : ℕ} {line : CStr} (h : '\n' ∉ line) (hn : line.length < n) :
    fgets n (line ++ '\n' :: rest) = (line ++ ['\n'], rest) := by
  induction line generalizing n with
  | nil =>
    obtain ⟨n, rfl⟩ := Nat.exists_eq_add_of_lt hn
    simp [fgets]
  | cons c line ih =>
    rw [List.mem_cons, not_or] at h
    rw [List.length_cons] at hn
    obtain ⟨n, rfl⟩ : ∃ k, n = k + 1 := ⟨n - 1, by omega⟩
    have hrest := @ih n h.2 (by omega)
    rw [List.cons_append, fgets, if_neg (Ne.symm h.1), hrest]
    rfl

/-- A file of such lines is read one line a token. -/
lemma tokens_lines {n : ℕ} {lines : List CStr} (h : ∀ line ∈ lines, Line line)
    (hn : lines.length ≤ n) :
    tokens n (lines.map fun line => line ++ ['\n']).flatten =
      lines.map fun line => line ++ ['\n'] := by
  induction lines generalizing n with
  | nil => cases n <;> rfl
  | cons line lines ih =>
    rw [List.length_cons] at hn
    obtain ⟨n, rfl⟩ : ∃ k, n = k + 1 := ⟨n - 1, by omega⟩
    have hline := h line List.mem_cons_self
    have hlines := @ih n (fun l hl => h l (List.mem_cons_of_mem line hl)) (by omega)
    have hget := @fgets_line (lines.map fun line => line ++ ['\n']).flatten 1023 line
      hline.newline hline.length
    rw [List.map_cons, List.flatten_cons, List.append_assoc, List.singleton_append]
    rw [tokens, hget, hlines]
    simp

section file

variable {cal : Calendar} {stale : Set ℤ} {found : ℕ → ℤ} {list : List Item}

lemma mapM_itemLine {lines : List CStr} (h : list.mapM (itemLine cal) = some lines) :
    List.Forall₂ (fun item line => itemLine cal item = some line) list lines := by
  induction list generalizing lines with
  | nil =>
    obtain rfl : [] = lines := by simpa using h
    exact .nil
  | cons item list ih =>
    rw [List.mapM_cons, Option.bind_eq_bind, Option.bind_eq_some_iff] at h
    obtain ⟨line, hline, h⟩ := h
    rw [Option.bind_eq_bind, Option.bind_eq_some_iff] at h
    obtain ⟨lines', hlines, h⟩ := h
    obtain rfl : line :: lines' = lines := by simpa using h
    exact .cons hline (ih hlines)

/-- A printed item is read from its line. -/
lemma line_of_itemLine {item : Item} {line : CStr} (hprint : item.Printable cal stale)
    (hts : item.timestamp ≠ -1) (hline : itemLine cal item = some line) :
    Line line ∧ ∀ flag ∈ stale, parseBlacklistEntry cal flag (line ++ ['\n']) = some item := by
  obtain ⟨⟨data, isdst⟩, hdata, rfl⟩ := Option.map_eq_some_iff.1 hline
  refine ⟨line_item hprint hdata, fun flag hflag => ?_⟩
  obtain ⟨⟨parts, hparts, hip⟩, hdate⟩ := hprint
  obtain ⟨hyear, hmktime⟩ := hdate data isdst hdata
  exact parse_line hparts hip (cal.valid _ _ _ hdata) hyear (hmktime flag hflag) hts

lemma takeWhile_nul {line : CStr} (h : Line line) :
    (line ++ ['\n']).takeWhile (· ≠ '\x00') = line ++ ['\n'] := by
  apply List.takeWhile_eq_self_iff.2
  intro c hc
  rw [List.mem_append, List.mem_singleton] at hc
  obtain hc | rfl := hc
  · have hne : c ≠ '\x00' := by
      rintro rfl
      exact h.nul hc
    simpa using hne
  · decide

/-- Every item of a list that was written is read from its line. -/
lemma lines_of_list {lines : List CStr} (hlines : list.mapM (itemLine cal) = some lines)
    (hprint : ∀ item ∈ list, item.Printable cal stale)
    (hts : ∀ item ∈ list, item.timestamp ≠ -1) :
    List.Forall₂ (fun item line => Line line ∧
      ∀ flag ∈ stale, parseBlacklistEntry cal flag (line ++ ['\n']) = some item) list lines := by
  have hall := mapM_itemLine hlines
  clear hlines
  induction hall with
  | nil => exact .nil
  | cons hline _ ih =>
    rw [List.forall_mem_cons] at hprint hts
    exact .cons (line_of_itemLine hprint.1 hts.1 hline) (ih hprint.2 hts.2)

lemma length_le_flatten (lines : List CStr) :
    lines.length ≤ (lines.map fun line => line ++ ['\n']).flatten.length := by
  induction lines with
  | nil => exact Nat.zero_le _
  | cons line lines ih =>
    simp only [List.length_cons, List.map_cons, List.flatten_cons, List.length_append,
      List.length_nil]
    omega

lemma parse_comment (isdst : ℤ) (text : CStr) :
    parseBlacklistEntry cal isdst ('#' :: text) = none := by
  have hself : ('#' :: text).dropWhile (fun c => schar c ≤ schar ' ') = '#' :: text :=
    List.dropWhile_cons_of_neg (by decide)
  unfold parseBlacklistEntry
  rw [hself]
  exact if_pos (.inl rfl)

lemma parse_blank (isdst : ℤ) : parseBlacklistEntry cal isdst ['\n'] = none := by
  have hself : ['\n'].dropWhile (fun c => schar c ≤ schar ' ') = [] := by decide
  have hfour : sscanf (dottedFormat 4 ++ dateFormat) [] = [] := by decide
  have hsix : sscanf (dottedFormat 6 ++ dateFormat) [] = [] := by decide
  unfold parseBlacklistEntry
  rw [hself]
  dsimp only
  rw [if_neg (by simp), hfour, hsix]

/-- The lines of items are read as the items, whatever line they start at. -/
lemma filterMap_lines (hfound : ∀ k, found k ∈ stale) {lines : List CStr}
    (h : List.Forall₂ (fun item line => Line line ∧
      ∀ flag ∈ stale, parseBlacklistEntry cal flag (line ++ ['\n']) = some item) list lines)
    (k : ℕ) :
    ((lines.map fun line => line ++ ['\n']).zipIdx k).filterMap (readToken cal found) = list := by
  induction h generalizing k with
  | nil => rfl
  | cons hitem _ ih =>
    rw [List.map_cons, List.zipIdx_cons, List.filterMap_cons, readToken, takeWhile_nul hitem.1,
      hitem.2 _ (hfound k)]
    exact congrArg _ (ih (k + 1))

/-- The file that was written is read as the list: no item comes from the banner and the blank line
behind it. -/
lemma read_flush {file : CStr} (hflush : flushBlacklist cal list = some file)
    (hprint : ∀ item ∈ list, item.Printable cal stale)
    (hts : ∀ item ∈ list, item.timestamp ≠ -1) (hfound : ∀ k, found k ∈ stale) :
    readBlacklisted cal found file = list := by
  obtain ⟨lines, hlines, rfl⟩ := Option.map_eq_some_iff.1 hflush
  have hall := lines_of_list hlines hprint hts
  have hbanner : Line banner := ⟨by decide +kernel, by decide +kernel, by decide +kernel⟩
  have hblank : Line [] := ⟨by simp, by simp, by simp⟩
  have hline : ∀ line ∈ lines, Line line := by
    clear hlines hflush hprint hts
    induction hall with
    | nil => simp
    | cons hitem _ ih => exact List.forall_mem_cons.2 ⟨hitem.1, ih⟩
  have htokens := tokens_lines (List.forall_mem_cons.2 ⟨hbanner, List.forall_mem_cons.2
    ⟨hblank, hline⟩⟩) (length_le_flatten (banner :: [] :: lines))
  unfold readBlacklisted
  rw [htokens, List.map_cons, List.zipIdx_cons, List.filterMap_cons, readToken,
    takeWhile_nul hbanner, banner, List.cons_append, parse_comment, List.map_cons,
    List.zipIdx_cons, List.filterMap_cons, readToken, takeWhile_nul hblank, List.nil_append,
    parse_blank]
  exact filterMap_lines hfound hall _

lemma timestamp_entryItem {isdst ltime hour min sec : ℤ} {item : Item}
    (h : entryItem cal isdst parts ltime hour min sec = some item) : item.timestamp ≠ -1 := by
  unfold entryItem at h
  split at h
  · dsimp only at h
    split at h
    · cases h
    · rename_i hts
      obtain rfl := Option.some.inj h
      exact hts
  · cases h

/-- The time -1, for which `mktime` has no result, is not in a list that was read. -/
lemma timestamp_readBlacklisted {file : CStr} {item : Item}
    (h : item ∈ readBlacklisted cal found file) : item.timestamp ≠ -1 := by
  obtain ⟨⟨token, k⟩, -, hparse⟩ := List.mem_filterMap.1 h
  unfold readToken parseBlacklistEntry at hparse
  dsimp only at hparse
  split at hparse
  · cases hparse
  · split at hparse
    · exact timestamp_entryItem hparse
    · split at hparse
      · exact timestamp_entryItem hparse
      · cases hparse

end file

/-! ## Calls -/

lemma IPv4.length_text (ip : IPv4) : ip.text.length < 32 := by
  have hoctet : ∀ x : Fin 256, (printLong x).length ≤ 3 := by
    intro x
    have hprint : printLong x = decimal x.val := if_neg (by omega)
    rw [hprint]
    exact (Nat.length_toDigits_le_iff (by decide) (by decide)).2 (by omega)
  have ha := hoctet ip.a
  have hb := hoctet ip.b
  have hc := hoctet ip.c
  have hd := hoctet ip.d
  simp only [text, octets, dotted, List.length_append, List.length_cons]
  omega

/-- The item that `blacklist_ip` fills in. -/
def IPv4.item (ip : IPv4) (time : ℤ) : Item := ⟨ip.text, time, ip.length_text⟩

/-- Calls with their arguments and the time of day at which they are made. -/
inductive Call
  | blacklist (ip : IPv4) (time : ℤ) (now : ℕ)
  | unblacklist (ip : IPv4)
  | blacklisted (ip : CStr) (now : ℕ)
  deriving DecidableEq

/-- A call; without a result when a time has no date. -/
def call (cal : Calendar) (resetTimeout : ℤ) (s : State) : Call → Option State
  | .blacklist ip time now => ipcBlacklistIp cal s (ip.item time) now
  | .unblacklist ip => some (ipcUnblacklistIp s ip.text)
  | .blacklisted ip now => (ipcBlacklisted cal resetTimeout s ip now).map Prod.fst

/-- An item whose time in the list is over. -/
def Item.Expired (resetTimeout : ℤ) (now : ℕ) (item : Item) : Prop :=
  0 < resetTimeout ∧ resetTimeout ≤ now - item.timestamp

/-- No address that is in the list is taken out by name, and only printable items are written: a new
one, and those that are in the list and stay there. -/
def Guard (cal : Calendar) (stale : Set ℤ) (resetTimeout : ℤ) (s : State) : Call → Prop
  | .blacklist ip time now => (∀ item ∈ s.list, item.Printable cal stale) ∧
      (ip.item (if time = -1 then now else time)).Printable cal stale
  | .unblacklist ip => ∀ item ∈ s.list, item.ip ≠ ip.text
  | .blacklisted _ now => (∃ item ∈ s.list, item.Expired resetTimeout now) →
      ∀ item ∈ s.list, ¬item.Expired resetTimeout now → item.Printable cal stale

/-- The dates of a file are read as the same times, whatever is found in `tm_isdst`. -/
def Steady (cal : Calendar) (stale : Set ℤ) (file : CStr) : Prop :=
  ∀ found found' : ℕ → ℤ, (∀ k, found k ∈ stale) → (∀ k, found' k ∈ stale) →
    readBlacklisted cal found file = readBlacklisted cal found' file

/-- The file holds the list, whatever the parser finds in `tm_isdst`. -/
def Saved (cal : Calendar) (stale : Set ℤ) (s : State) : Prop :=
  ∀ found : ℕ → ℤ, (∀ k, found k ∈ stale) → readBlacklisted cal found s.file = s.list

section calls

variable {cal : Calendar} {stale : Set ℤ} {resetTimeout : ℤ} {s t : State} {c : Call}
  {cs : List Call}

lemma Saved.timestamp {found : ℕ → ℤ} (hfound : ∀ k, found k ∈ stale) (h : Saved cal stale s)
    {item : Item} (hitem : item ∈ s.list) : item.timestamp ≠ -1 := by
  rw [← h found hfound] at hitem
  exact timestamp_readBlacklisted hitem

lemma blacklistIp_item (list : List Item) (ip : IPv4) (time : ℤ) (now : ℕ) :
    blacklistIp list (ip.item time) now =
      list ++ [ip.item (if time = -1 then now else time)] := by
  unfold blacklistIp IPv4.item
  split_ifs <;> rfl

lemma mem_current {list : List Item} {now : ℕ} {item : Item} :
    item ∈ current resetTimeout list now ↔ item ∈ list ∧ ¬item.Expired resetTimeout now := by
  rw [current, List.mem_filter, decide_eq_true_iff]
  rfl

/-- The list is written when an item has expired. -/
lemma current_eq_self {list : List Item} {now : ℕ}
    (h : ¬∃ item ∈ list, item.Expired resetTimeout now) : current resetTimeout list now = list := by
  apply List.filter_eq_self.2
  intro item hitem
  exact decide_eq_true fun hexpired => h ⟨item, hitem, hexpired⟩

/-- One call. -/
lemma Saved.call (h : Saved cal stale s) (hguard : Guard cal stale resetTimeout s c)
    (hcall : call cal resetTimeout s c = some t) : Saved cal stale t := by
  intro found hfound
  cases c with
  | blacklist ip time now =>
    obtain ⟨file, hflush, rfl⟩ := Option.map_eq_some_iff.1 hcall
    obtain ⟨hold, hnew⟩ := hguard
    refine read_flush hflush ?_ ?_ hfound
    · intro item hitem
      rw [blacklistIp_item, List.mem_append, List.mem_singleton] at hitem
      obtain hitem | rfl := hitem
      · exact hold item hitem
      · exact hnew
    · intro item hitem
      rw [blacklistIp_item, List.mem_append, List.mem_singleton] at hitem
      obtain hitem | rfl := hitem
      · exact h.timestamp hfound hitem
      · unfold IPv4.item
        split_ifs with htime
        · dsimp only
          omega
        · exact htime
  | unblacklist ip =>
    obtain rfl := Option.some.inj hcall
    have hlist : unblacklistIp s.list ip.text = s.list := by
      apply List.filter_eq_self.2
      intro item hitem
      simpa using hguard item hitem
    unfold ipcUnblacklistIp
    rw [hlist]
    exact h found hfound
  | blacklisted ip now =>
    obtain ⟨⟨u, res⟩, hu, rfl⟩ := Option.map_eq_some_iff.1 hcall
    unfold ipcBlacklisted at hu
    dsimp only at hu
    split at hu
    · obtain ⟨rfl, -⟩ := Prod.mk.inj (Option.some.inj hu)
      exact h found hfound
    · rename_i hchanged
      obtain ⟨file, hflush, hpair⟩ := Option.map_eq_some_iff.1 hu
      obtain ⟨rfl, -⟩ := Prod.mk.inj hpair
      have hexpired : ∃ item ∈ s.list, item.Expired resetTimeout now := by
        by_contra hnone
        exact hchanged (current_eq_self hnone)
      refine read_flush hflush ?_ ?_ hfound
      · intro item hitem
        obtain ⟨hmem, hlasts⟩ := mem_current.1 hitem
        exact hguard hexpired item hmem hlasts
      · intro item hitem
        exact h.timestamp hfound (mem_current.1 hitem).1

/-- An address that is taken out of the list stays in the file. -/
lemma Saved.not_unblacklist (h : Saved cal stale s) {found : ℕ → ℤ} (hfound : ∀ k, found k ∈ stale)
    {ip : IPv4} (hip : ∃ item ∈ s.list, item.ip = ip.text) :
    readBlacklisted cal found (ipcUnblacklistIp s ip.text).file ≠
      (ipcUnblacklistIp s ip.text).list := by
  intro hsaved
  obtain ⟨item, hitem, htext⟩ := hip
  have hlist : s.list = unblacklistIp s.list ip.text := (h found hfound).symm.trans hsaved
  rw [hlist] at hitem
  have hne := List.of_mem_filter hitem
  simp [htext] at hne

/-- From a file with steady dates that was just read, and as long as no listed address is taken out
by name and what is written is printable, the file holds the list after every call. The next call
that takes out a listed address ends this. -/
theorem blacklist_saved {file : CStr} {found : ℕ → ℤ} (hfound : ∀ k, found k ∈ stale)
    (hfile : Steady cal stale file)
    (hr : Run (Guarded (Guard cal stale resetTimeout) (StepOf (call cal resetTimeout)))
      (ipcBlacklistInit cal found file) cs t) :
    Saved cal stale t ∧
      ∀ ip u, (∃ item ∈ t.list, item.ip = IPv4.text ip) →
        call cal resetTimeout t (.unblacklist ip) = some u →
          ∀ found' : ℕ → ℤ, (∀ k, found' k ∈ stale) →
            readBlacklisted cal found' u.file ≠ u.list := by
  have hsaved : Saved cal stale t := by
    refine hr.invariant (fun _ _ _ h hstep => h.call hstep.1 hstep.2) ?_
    exact fun found' hfound' => hfile found' found hfound' hfound
  refine ⟨hsaved, ?_⟩
  intro ip u hip hu found' hfound'
  obtain rfl := Option.some.inj hu
  exact hsaved.not_unblacklist hfound' hip

end calls

/-! ## Two hours of one day -/

lemma IPv4.address (ip : IPv4) : Address ip.octets where
  length := .inl rfl
  range := by
    intro x hx
    simp only [octets, List.mem_cons, List.not_mem_nil, or_false] at hx
    omega
  head := by
    simp only [octets, List.headD_cons]
    omega

/-- 21:20:00 and 22:20:00 of the tenth of January 2008, in UTC; `mktime` does not mind `tm_isdst`
there. -/
def sampleCalendar : Calendar where
  localtime t :=
    if t = 1200000000 then some (⟨108, 0, 10, 21, 20, 0⟩, 0)
    else if t = 1200003600 then some (⟨108, 0, 10, 22, 20, 0⟩, 0)
    else none
  mktime tm _ :=
    if tm = ⟨108, 0, 10, 21, 20, 0⟩ then 1200000000
    else if tm = ⟨108, 0, 10, 22, 20, 0⟩ then 1200003600
    else -1
  valid := by
    intro t tm isdst h
    split_ifs at h <;> cases h <;>
      exact ⟨by decide, by decide, by decide, by decide, by decide, by decide⟩
  mktime_localtime := by
    intro t tm isdst h
    split_ifs at h with h₁ h₂ <;> cases h
    · simp [h₁]
    · simp [h₂]

lemma sampleCalendar_printable (ip : IPv4) (time : ℤ) :
    (ip.item time).Printable sampleCalendar Set.univ := by
  refine ⟨⟨ip.octets, ip.address, rfl⟩, ?_⟩
  intro data isdst hdata
  refine ⟨?_, fun _ _ => sampleCalendar.mktime_localtime _ data isdst hdata⟩
  unfold sampleCalendar at hdata
  dsimp only at hdata
  split_ifs at hdata <;> cases hdata <;> decide

lemma sampleCalendar_steady (file : CStr) : Steady sampleCalendar Set.univ file :=
  fun _ _ _ _ => rfl

/-- A file with one entry, written by hand. -/
def sampleFile : CStr := "; the laboratory\n 10.0.0.7 20080111-21:20:00\n".toList

def sampleCalls : List Call :=
  [.blacklist ⟨192, 168, 0, 1⟩ (-1) 1200003600, .unblacklist ⟨10, 0, 0, 8⟩,
    .blacklisted "10.0.0.7".toList 1200003600]

/-- The state after a call that wrote the list. -/
def sampleState (list : List Item) : State := ⟨(flushBlacklist sampleCalendar list).getD [], list⟩

lemma sample_run :
    Run (Guarded (Guard sampleCalendar Set.univ 3600) (StepOf (call sampleCalendar 3600)))
      (ipcBlacklistInit sampleCalendar (fun _ => 0) sampleFile) sampleCalls
      (sampleState [IPv4.item ⟨192, 168, 0, 1⟩ 1200003600]) := by
  let first : Item := IPv4.item ⟨10, 0, 0, 7⟩ 1200000000
  let second : Item := IPv4.item ⟨192, 168, 0, 1⟩ 1200003600
  have hfirst : first.Printable sampleCalendar Set.univ := sampleCalendar_printable _ _
  have hsecond : second.Printable sampleCalendar Set.univ := sampleCalendar_printable _ _
  have hread : (ipcBlacklistInit sampleCalendar (fun _ => 0) sampleFile).list = [first] := by
    decide +kernel
  have h₁ : Guarded (Guard sampleCalendar Set.univ 3600) (StepOf (call sampleCalendar 3600))
      (ipcBlacklistInit sampleCalendar (fun _ => 0) sampleFile)
      (.blacklist ⟨192, 168, 0, 1⟩ (-1) 1200003600)
      (sampleState [first, second]) := by
    refine ⟨⟨?_, hsecond⟩, by unfold StepOf; decide +kernel⟩
    rw [hread]
    simpa using hfirst
  have h₂ : Guarded (Guard sampleCalendar Set.univ 3600) (StepOf (call sampleCalendar 3600))
      (sampleState [first, second]) (.unblacklist ⟨10, 0, 0, 8⟩)
      (sampleState [first, second]) := by
    refine ⟨?_, by unfold StepOf; decide +kernel⟩
    change ∀ item ∈ [first, second], item.ip ≠ _
    decide +kernel
  have h₃ : Guarded (Guard sampleCalendar Set.univ 3600) (StepOf (call sampleCalendar 3600))
      (sampleState [first, second]) (.blacklisted "10.0.0.7".toList 1200003600)
      (sampleState [second]) := by
    refine ⟨?_, by unfold StepOf; decide +kernel⟩
    intro _
    change ∀ item ∈ [first, second], _
    simp [hfirst, hsecond]
  exact ((Run.nil.snoc h₁).snoc h₂).snoc h₃

theorem blacklist_saved_sampleCalls :
    Saved sampleCalendar Set.univ (sampleState [IPv4.item ⟨192, 168, 0, 1⟩ 1200003600]) :=
  (blacklist_saved (fun _ => Set.mem_univ _) (sampleCalendar_steady sampleFile) sample_run).1

/-- An address is blacklisted and then taken out: the file still has it. -/
theorem unblacklist_not_saved :
    ∃ t, Run (StepOf (call sampleCalendar 3600)) (ipcBlacklistInit sampleCalendar (fun _ => 0) [])
        [.blacklist ⟨10, 0, 0, 7⟩ (-1) 1200000000, .unblacklist ⟨10, 0, 0, 7⟩] t ∧
      t.list = [] ∧ readBlacklisted sampleCalendar (fun _ => 0) t.file =
        [IPv4.item ⟨10, 0, 0, 7⟩ 1200000000] :=
  ⟨⟨(sampleState [IPv4.item ⟨10, 0, 0, 7⟩ 1200000000]).file, []⟩,
    Run.of_foldlM (by decide +kernel), rfl, by decide +kernel⟩

/-- 00:20:00 of the first of July 2008 in a zone whose summer time is two hours ahead of UTC;
`mktime` takes the hour for one of winter time where `tm_isdst` is zero. -/
def summerCalendar : Calendar where
  localtime t := if t = 1214864400 then some (⟨108, 6, 1, 0, 20, 0⟩, 1) else none
  mktime tm isdst :=
    if tm = ⟨108, 6, 1, 0, 20, 0⟩ then if isdst = 0 then 1214868000 else 1214864400 else -1
  valid := by
    intro t tm isdst h
    split_ifs at h
    cases h
    exact ⟨by decide, by decide, by decide, by decide, by decide, by decide⟩
  mktime_localtime := by
    intro t tm isdst h
    split_ifs at h with ht
    cases h
    simp [ht]

/-- An hour is lost where the stack holds a zero. -/
example : (call summerCalendar 0 ⟨[], []⟩ (.blacklist ⟨10, 0, 0, 7⟩ (-1) 1214864400)).map
      (fun s => (s.list, readBlacklisted summerCalendar (fun _ => 0) s.file)) =
    some ([IPv4.item ⟨10, 0, 0, 7⟩ 1214864400], [IPv4.item ⟨10, 0, 0, 7⟩ 1214868000]) := by
  decide +kernel

end WebTester.Blacklist
