import WebTester.CString

/-!
# Regular expressions

The wrapper around the library for regular expressions. An expression is written between slashes,
with modifiers behind. The vector for what the library finds is as long as twice the subject, but
the library uses two thirds of it only, one pair of places for the whole match and one for every
group. A replacement mask has its own escapes and refers to groups by `$` and a number.

What the library finds is left open: a `Handle` gives the answer of `pcre_exec` for a subject and
a size of the vector. Texts are shorter than 2 ^ 30 characters, so that sizes are values of `int`.
-/
namespace WebTester.Preg
open CString

/-! ## The library -/

/-- The places of a match in a subject, and those of its groups as far as they are set. -/
structure Match (s : CStr) where
  l : ℕ
  r : ℕ
  l_le : l ≤ r
  r_le : r ≤ s.length
  groups : List (Option (ℕ × ℕ))

namespace Match

variable {s : CStr}

/-- The text between two places, nothing for a group that is not set. -/
def between (s : CStr) : Option (ℕ × ℕ) → CStr
  | none => []
  | some (a, b) => (s.drop a).take (b - a)

/-- `substrings` of `regexp_replace_iterator`. -/
def substrings (m : Match s) : List CStr := between s (some (m.l, m.r)) :: m.groups.map (between s)

end Match

/-- What `pcre_exec` answers: nothing that can be used, or a match. -/
inductive Exec (s : CStr)
  | fail (code : ℤ) (h : code ≤ 0)
  | found (m : Match s)

/-- The value that `pcre_exec` returns, for a match the number of its pairs. -/
def Exec.result {s : CStr} : Exec s → ℤ
  | .fail code _ => code
  | .found m => m.groups.length + 1

/-- The answer for a subject that does not match. -/
def Exec.noMatch (s : CStr) : Exec s := .fail (-1) (by decide)

/-- The answer for a vector without room for the match. -/
def Exec.noRoom (s : CStr) : Exec s := .fail 0 (by decide)

abbrev Handle := (s : CStr) → ℕ → Exec s

/-! ## Expressions -/

/-- The codes in `modifiers`. -/
inductive Modifier
  | caseless
  | multiline
  | dotall
  | extended
  | replaceGlobal
  deriving DecidableEq

/-- `get_modifier_code`. -/
def getModifierCode (ch : Char) : Option Modifier :=
  if ch = 'i' then some .caseless
  else if ch = 'm' then some .multiline
  else if ch = 's' then some .dotall
  else if ch = 'x' then some .extended
  else if ch = 'g' then some .replaceGlobal
  else none

/-- The first loop of `parse_regexp`: the text between the slashes, and what comes behind. -/
def parseText (regexpOpened : Bool) (text : CStr) : CStr → Option (CStr × CStr)
  | [] => none
  | c :: cs =>
    if c = '/' then
      if regexpOpened then some (text, cs)
      else if text ≠ [] then none
      else parseText true text cs
    else parseText regexpOpened (text ++ [c]) cs

/-- `parse_regexp`. -/
def parseRegexp (s : CStr) : Option (CStr × List Modifier) :=
  match parseText false [] s with
  | none => none
  | some (text, rest) => (rest.mapM getModifierCode).map fun modifiers => (text, modifiers)

/-- `struct regexp`. -/
structure Regexp where
  handle : Handle
  modifiers : List Modifier

/-- `regexp_compile`; `pcreCompile` gives a handle for a text and options. -/
def regexpCompile (pcreCompile : CStr → List Modifier → Option Handle) (regexp : CStr) :
    Option Regexp :=
  match parseRegexp regexp with
  | none => none
  | some (text, modifiers) =>
    (pcreCompile text (modifiers.filter (· ≠ .replaceGlobal))).map fun handle =>
      ⟨handle, modifiers⟩

/-- The size of the vector for a subject. -/
def ovectorSize (s : CStr) : ℕ := (s.length + 1) * 2

/-- `regexp_get_vector`. -/
def regexpGetVector (re : Regexp) (s : CStr) (size : ℕ) : Exec s := re.handle s size

/-- `regexp_match`. -/
def regexpMatch (re : Regexp) (s : CStr) : Bool :=
  0 < (regexpGetVector re s (ovectorSize s)).result

/-- `preg_match`. -/
def pregMatch (pcreCompile : CStr → List Modifier → Option Handle) (regexp s : CStr) : Bool :=
  match regexpCompile pcreCompile regexp with
  | none => false
  | some re => regexpMatch re s

/-! ## Masks -/

/-- A token of a mask: a text, or the digits behind a `$`. -/
structure Token where
  text : CStr
  /-- `PF_NAMED_STRING`. -/
  named : Bool
  /-- What is left of the mask. -/
  rest : CStr
  deriving DecidableEq

/-- The characters that a backslash is put before. -/
def unescape (c : Char) : Char :=
  if c = 'n' then '\n' else if c = 'r' then '\r' else if c = 't' then '\t' else c

/-- The loop of `replace_parser_iterator` over a text that is not empty so far, up to a `$`. A
backslash at the end makes it read behind the end of the mask, which has no defined effect. -/
def textToken (text : CStr) : CStr → Option Token
  | [] => some ⟨text, false, []⟩
  | '\\' :: [] => none
  | '\\' :: c :: cs => textToken (text ++ [unescape c]) cs
  | c :: cs => if c = '$' then some ⟨text, false, c :: cs⟩ else textToken (text ++ [c]) cs

/-- `replace_parser_iterator` at a place that is not the end of the mask. -/
def replaceParserIterator : CStr → Option Token
  | [] => none
  | c :: cs =>
    if c = '$' then some ⟨cs.takeWhile Char.isDigit, true, cs.dropWhile Char.isDigit⟩
    else textToken [] (c :: cs)

/-- `REGEXP_INVALID_NAMED_STRING`. -/
def Token.invalid (t : Token) : Bool := t.named && t.text.isEmpty

/-- What `regexp_replace_iterator` appends for a token that is valid. `atoi` gives nothing for a
number that is no `int`. -/
def Token.append (substrings : List CStr) (t : Token) : Option CStr :=
  if t.named then
    if digitsValue t.text < 2 ^ 31 then some (substrings.getD (digitsValue t.text) []) else none
  else some t.text

/-- The loop of `regexp_replace_iterator` over the tokens of a mask, with a bound on the
iterations. An invalid token makes the result `NULL`. -/
def expandMask (substrings : List CStr) : ℕ → CStr → CStr → Option (Option CStr)
  | 0, _, _ => none
  | _ + 1, out, [] => some (some out)
  | fuel + 1, out, mask => do
    let t ← replaceParserIterator mask
    if t.invalid then return none
    let append ← t.append substrings
    expandMask substrings fuel (out ++ append) t.rest

/-! ## Replacing -/

/-- What `regexp_replace_iterator` leaves to its caller. -/
structure Iterated where
  out : Option CStr
  l : ℕ
  r : ℕ

/-- `regexp_replace_iterator`. -/
def regexpReplaceIterator (re : Regexp) (s mask : CStr) : Option Iterated :=
  match regexpGetVector re s (ovectorSize s) with
  | .fail _ _ => some ⟨none, 0, 0⟩
  | .found m => (expandMask m.substrings (mask.length + 1) [] mask).map fun out => ⟨out, m.l, m.r⟩

/-- The buffer after one more prefix and replacement. -/
def appendBuf (buf : Option CStr) (prefixText : CStr) (dummy : Option CStr) : Option CStr :=
  if 0 < prefixText.length + (dummy.getD []).length then
    some (buf.getD [] ++ prefixText ++ dummy.getD [])
  else buf

/-- The loop of `regexp_replace` and the suffix it appends, with a bound on the iterations. -/
def replaceFrom (re : Regexp) (mask : CStr) : ℕ → Option CStr → CStr → Option CStr
  | 0, _, _ => none
  | fuel + 1, buf, shift => do
    let i ← regexpReplaceIterator re shift mask
    let buf := appendBuf buf (shift.take i.l) i.out
    let rest := shift.drop i.r
    if i.out = none ∨ i.r = 0 ∨ .replaceGlobal ∉ re.modifiers then
      return buf.getD [] ++ rest
    else replaceFrom re mask fuel buf rest

/-- `regexp_replace`. -/
def regexpReplace (re : Regexp) (s mask : CStr) : Option CStr :=
  replaceFrom re mask (s.length + 1) none s

/-- `preg_replace`; the result is `NULL` when the expression cannot be compiled. -/
def pregReplace (pcreCompile : CStr → List Modifier → Option Handle) (regexp s mask : CStr) :
    Option (Option CStr) :=
  match regexpCompile pcreCompile regexp with
  | none => some none
  | some re => (regexpReplace re s mask).map some

end WebTester.Preg
