import Mathlib.Data.Int.Notation
import Mathlib.Data.List.TakeWhile
import Mathlib.Logic.Function.Basic
import WebTester.CString

/-!
# The library of checkers

A stream keeps the characters behind and ahead of its position and the end-of-file flag, which
`goback` tests. A read routine that calls `Quit` ends the process, so it has no stream to go on
with; its error is the text that it quits with. Every such call in a read routine is for `_PE`,
since the streams are open.
-/
namespace WebTester.TestLib
open CString

/-! ## Streams -/

/-- An open `FILE`; `behind` has the character before the position first. -/
structure File where
  behind : CStr
  ahead : CStr
  eof : Bool
  deriving DecidableEq

namespace File

/-- `fopen` of a file. -/
def fopen (text : CStr) : File := ⟨[], text, false⟩

/-- `fgetc`; no character is `EOF`. -/
def fgetc (f : File) : Option Char × File :=
  match f.ahead with
  | [] => (none, { f with eof := true })
  | c :: ahead => (some c, { f with behind := c :: f.behind, ahead := ahead })

/-- `goback`. -/
def goback (f : File) : File :=
  if f.eof then f
  else match f.behind with
    | [] => f
    | c :: behind => { f with behind := behind, ahead := c :: f.ahead }

lemma fgetc_length (f : File) :
    f.fgetc.1.toList.length + f.fgetc.2.ahead.length = f.ahead.length := by
  unfold fgetc
  split
  · next h => simp [h]
  · next c ahead h =>
    simp only [h, Option.toList_some, List.length_cons, List.length_nil]
    omega

end File

/-- `is_space` of the library. -/
def isSpace (c : Char) : Bool := c == ' ' || c == '\n' || c == '\t' || c == '\r'

/-- While `p` holds of the character that was read, the next one is read. -/
def fgetcWhile (p : Char → Bool) : Option Char → File → Option Char × File
  | none, f => (none, f)
  | some c, f => if p c then fgetcWhile p f.fgetc.1 f.fgetc.2 else (some c, f)
termination_by ch f => ch.toList.length + f.ahead.length
decreasing_by
  rw [f.fgetc_length]
  simp

/-- The condition under which a number may end. -/
def ends (ch : Option Char) : Bool := ch.all isSpace

/-! ## Read routines -/

/-- `read_number` while it collects digits: the value, whether a digit was read, and the character
read last. -/
def collectNumber (max sign val : ℤ) (readed : Bool) :
    Option Char → File → Except CStr (ℤ × Bool × Option Char × File)
  | none, f => .ok (val, readed, none, f)
  | some c, f =>
    if c.isDigit then
      let val := val * 10 + (c.toNat - '0'.toNat)
      if sign * val < -max - 1 ∨ max < sign * val then
        .error "Invalid integer value (Range Check error)".toList
      else collectNumber max sign val true f.fgetc.1 f.fgetc.2
    else .ok (val, readed, some c, f)
termination_by ch f => ch.toList.length + f.ahead.length
decreasing_by
  rw [f.fgetc_length]
  simp

/-- The sign of a number, and the character after it. -/
def getSign (ch : Option Char) (f : File) : ℤ × Option Char × File :=
  if ch = some '-' then (-1, f.fgetc)
  else if ch = some '+' then (1, f.fgetc)
  else (1, ch, f)

/-- `read_number`. -/
def readNumber (max : ℤ) (f : File) : Except CStr (ℤ × File) :=
  let r := fgetcWhile isSpace f.fgetc.1 f.fgetc.2
  if r.1 = none then .error "Unexpected end of file".toList
  else
    let s := getSign r.1 r.2
    match collectNumber max s.1 0 false s.2.1 s.2.2 with
    | .error desc => .error desc
    | .ok (val, readed, ch, f) =>
      if !ends ch || !readed then .error "Invalid integer value".toList
      else .ok (val * s.1, f.goback)

/-- `testlib_read_integer`, with `MAXINT`. -/
def readInteger (f : File) : Except CStr (ℤ × File) := readNumber 32767 f

/-- `testlib_read_longint`, with `MAXLONGINT`. -/
def readLongint (f : File) : Except CStr (ℤ × File) := readNumber 2147483647 f

/-- A decimal point. -/
def isPoint (c : Char) : Bool := c == '.' || c == ','

/-- `testlib_read_float` while it collects digits; `decimal` is the number of digits before the
last point, -1 before the first one. -/
def collectFloat (decimal : ℤ) (digits : CStr) (readed : Bool) :
    Option Char → File → Except CStr (ℤ × CStr × Bool × Option Char × File)
  | none, f => .ok (decimal, digits, readed, none, f)
  | some c, f =>
    if isPoint c then
      if 0 < decimal then .error "Invalid floating-point value".toList
      else collectFloat digits.length digits false f.fgetc.1 f.fgetc.2
    else if c.isDigit then
      collectFloat decimal (digits ++ [c]) true f.fgetc.1 f.fgetc.2
    else .ok (decimal, digits, readed, some c, f)
termination_by ch f => ch.toList.length + f.ahead.length
decreasing_by
  · rw [f.fgetc_length]
    simp
  · rw [f.fgetc_length]
    simp

/-- A number as it was written: its sign, its digits and how many of them follow the point. -/
structure Decimal where
  sign : ℤ
  digits : CStr
  scale : ℕ

/-- `testlib_read_float`, `testlib_read_real`; the `double` that is computed from the digits is left
out. -/
def readFloat (f : File) : Except CStr (Decimal × File) :=
  let r := fgetcWhile isSpace f.fgetc.1 f.fgetc.2
  let s := getSign r.1 r.2
  match collectFloat (-1) [] false s.2.1 s.2.2 with
  | .error desc => .error desc
  | .ok (decimal, digits, readed, ch, f) =>
    if !ends ch || !readed then .error "Invalid floating-point value".toList
    else .ok (⟨s.1, digits, if decimal < 0 then 0 else digits.length - decimal.toNat⟩, f.goback)

/-- A character within a line. -/
def inLine (c : Char) : Bool := c != '\n' && c != '\r'

/-- The loop of `testlib_read_string`, for at most so many characters. -/
def collectString : ℕ → CStr → Option Char → File → CStr × Option Char × File
  | n + 1, buf, some c, f =>
    if inLine c then collectString n (buf ++ [c]) f.fgetc.1 f.fgetc.2 else (buf, some c, f)
  | 0, buf, ch, f => (buf, ch, f)
  | _ + 1, buf, none, f => (buf, none, f)

/-- `testlib_read_string`. The character that the loop stops at is used up. -/
def readString (maxlen : ℤ) (f : File) : Except CStr (CStr × File) :=
  if f.fgetc.1 = none then .error "Unexpected end of file".toList
  else
    let r := collectString maxlen.toNat [] f.fgetc.1 f.fgetc.2
    if r.2.1 = some '\r' then
      let s := r.2.2.fgetc
      .ok (r.1, if s.1 = some '\n' then s.2 else s.2.goback)
    else .ok (r.1, r.2.2)

/-- `testlib_read_char`. -/
def readChar (f : File) : Except CStr (Char × File) :=
  match f.fgetc with
  | (none, _) => .error "No chars to read".toList
  | (some c, f) => .ok (c, f)

/-- `testlib_next_line`. -/
def nextLine (f : File) : Except CStr File :=
  match fgetcWhile inLine f.fgetc.1 f.fgetc.2 with
  | (none, _) => .error "Unexpected end of file".toList
  | (some c, f) =>
    if c = '\n' then
      match f.fgetc with
      | (none, _) => .error "Unexpected end of file".toList
      | (some d, f) => .ok (if d = '\r' then f else f.goback)
    else .ok f.goback

/-- `testlib_seekeof`. -/
def seekeof (f : File) : Bool × File :=
  if f.eof then (true, f)
  else match fgetcWhile isSpace f.fgetc.1 f.fgetc.2 with
    | (none, f) => (true, f)
    | (some _, f) => (false, f.goback)

/-! ## Ending the process -/

/-- The three streams of a checker; the output stream is the one that was registered by
`testlib_set_output_stream`. -/
inductive Which
  | input
  | answer
  | output
  deriving DecidableEq

/-- The codes of an exit. -/
inductive Code
  | ok
  | wa
  | pe
  | cr
  deriving DecidableEq

/-- `_OK`, `_WA`, `_PE` and `_CR`. -/
def Code.toNat : Code → ℕ
  | .ok => 0
  | .wa => 1
  | .pe => 2
  | .cr => 4

/-- The exit of a checker, with the text of its message. -/
structure Exit where
  code : Code
  desc : CStr

/-- `testlib_quit`, with the output stream. -/
def testlibQuit (out : File) (errno : Code) (desc : CStr) : Exit :=
  if errno = .ok then
    if (seekeof out).1 then ⟨errno, desc⟩
    else ⟨.pe, "Extra information in tail of the output file".toList⟩
  else ⟨errno, desc⟩

/-- `Quit` of a read routine for the stream `w`. -/
def quit (w : Which) (out : File) (errno : Code) (desc : CStr) : Exit :=
  if w ≠ .output ∧ errno = .pe then
    testlibQuit out .cr (desc ++ " in input/answer file".toList)
  else testlibQuit out errno desc

/-- The read operations of a checker. -/
inductive Op
  | readInteger
  | readLongint
  | readFloat
  | readString (maxlen : ℤ)
  | readChar
  | nextLine

/-- The stream after a read. -/
def Op.read (f : File) : Op → Except CStr File
  | .readInteger => (TestLib.readInteger f).map Prod.snd
  | .readLongint => (TestLib.readLongint f).map Prod.snd
  | .readFloat => (TestLib.readFloat f).map Prod.snd
  | .readString maxlen => (TestLib.readString maxlen f).map Prod.snd
  | .readChar => (TestLib.readChar f).map Prod.snd
  | .nextLine => TestLib.nextLine f

/-- A checker that makes some reads and then calls `testlib_quit (_OK)`. -/
def check : List (Which × Op) → (Which → File) → Exit
  | [], fs => testlibQuit (fs .output) .ok []
  | (w, op) :: ops, fs =>
    match op.read (fs w) with
    | .error desc => quit w (fs .output) .pe desc
    | .ok f => check ops (Function.update fs w f)

end WebTester.TestLib
