import WebTester.TestLib

/-!
# What a checker exits with

The read operations are stated once more as functions of the text that is still to be read. The
routines of the library do the same to their streams, whatever was put back and whether or not the
end of the file was met. The exit of a checker is then decided by the first read that fails and by
the text that is left of the output.
-/
namespace WebTester.TestLib
open CString

/-! ## Reading from a text -/

/-- Blanks, a sign and digits, up to a blank or the end of the text. -/
def number (max : ℤ) (text : CStr) : Option (ℤ × CStr) :=
  let t := takeSign (text.dropWhile isSpace)
  let digits := t.2.takeWhile Char.isDigit
  let rest := t.2.dropWhile Char.isDigit
  let val := digitsValue digits * t.1
  if digits ≠ [] ∧ -max - 1 ≤ val ∧ val ≤ max ∧ rest.head?.all isSpace then some (val, rest)
  else none

/-- A character of a floating-point number. -/
def isFloat (c : Char) : Bool := isPoint c || c.isDigit

/-- Blanks, a sign, and digits with points, up to a blank or the end of the text. The last one is a
digit; after the points in front at most one follows. -/
def float (text : CStr) : Option CStr :=
  let t := takeSign (text.dropWhile isSpace)
  let body := t.2.takeWhile isFloat
  let rest := t.2.dropWhile isFloat
  if (body.dropWhile isPoint).countP isPoint ≤ 1 ∧ body.getLast?.any Char.isDigit ∧
    rest.head?.all isSpace then some rest
  else none

/-- One character is left out, or the two that end a line. -/
def skipEnd : CStr → CStr
  | '\r' :: '\n' :: text => text
  | _ :: text => text
  | [] => []

/-- The rest of a line, or as much as fits, and one character more. -/
def line (maxlen : ℤ) (text : CStr) : Option (CStr × CStr) :=
  let taken := (text.takeWhile inLine).take maxlen.toNat
  if text = [] then none else some (taken, skipEnd (text.drop taken.length))

/-- What follows the next newline, which must not be at the end; a carriage return is not
passed. -/
def lineAfter (text : CStr) : Option CStr :=
  match text.dropWhile inLine with
  | [] => none
  | c :: rest =>
    if c = '\n' then
      match rest with
      | [] => none
      | d :: rest => some (if d = '\r' then rest else d :: rest)
    else some (c :: rest)

/-- The text left by a read, none when it fails. -/
def Op.parse (text : CStr) : Op → Option CStr
  | .readInteger => (number 32767 text).map Prod.snd
  | .readLongint => (number 2147483647 text).map Prod.snd
  | .readFloat => float text
  | .readString maxlen => (line maxlen text).map Prod.snd
  | .readChar => match text with
    | [] => none
    | _ :: rest => some rest
  | .nextLine => lineAfter text

/-- The texts left by some reads, or the stream of the first one that fails. -/
def parseAll : List (Which × Op) → (Which → CStr) → Except Which (Which → CStr)
  | [], texts => .ok texts
  | (w, op) :: ops, texts =>
    match op.parse (texts w) with
    | none => .error w
    | some rest => parseAll ops (Function.update texts w rest)

/-! ## Streams and the text ahead -/

/-- The end-of-file flag is set only at the end. -/
def File.Sound (f : File) : Prop := f.eof = true → f.ahead = []

/-- The character read last is the first one of `text`, and the stream is behind it. -/
inductive At : Option Char → File → CStr → Prop
  | char {c : Char} {f : File} (heof : f.eof = false) (hbehind : f.behind.head? = some c) :
      At (some c) f (c :: f.ahead)
  | atEnd {f : File} (heof : f.eof = true) (hahead : f.ahead = []) : At none f []

lemma File.Sound.fgetc {f : File} (h : f.Sound) : At f.fgetc.1 f.fgetc.2 f.ahead := by
  obtain ⟨behind, ahead, eof⟩ := f
  cases ahead with
  | nil => exact .atEnd rfl rfl
  | cons c ahead =>
    have heof : eof = false := by
      rw [Bool.eq_false_iff]
      intro heof
      simpa using h heof
    exact @At.char c ⟨c :: behind, ahead, eof⟩ heof rfl

namespace At

variable {ch : Option Char} {c : Char} {f : File} {text : CStr}

lemma sound (h : At ch f text) : f.Sound := by
  cases h with
  | char heof _ => exact fun h => absurd h (by simp [heof])
  | atEnd _ hahead => exact fun _ => hahead

lemma eq_head? (h : At ch f text) : ch = text.head? := by
  cases h <;> rfl

lemma ahead (h : At ch f text) : f.ahead = text.tail := by
  cases h with
  | char _ _ => rfl
  | atEnd _ hahead => exact hahead

/-- What was read last is put back. -/
lemma goback (h : At ch f text) : f.goback.Sound ∧ f.goback.ahead = text := by
  obtain ⟨behind, ahead, eof⟩ := f
  cases h with
  | char heof hbehind =>
    cases behind with
    | nil => simp at hbehind
    | cons d behind =>
      obtain rfl := Option.some.inj hbehind
      obtain rfl : eof = false := heof
      exact ⟨fun h => by simp [File.goback] at h, rfl⟩
  | atEnd heof hahead =>
    obtain rfl : eof = true := heof
    exact ⟨fun _ => hahead, hahead⟩

lemma next (h : At (some c) f text) : At f.fgetc.1 f.fgetc.2 text.tail := by
  rw [← h.ahead]
  exact h.sound.fgetc

lemma ends (h : At ch f text) : ends ch = text.head?.all isSpace := by
  rw [TestLib.ends, h.eq_head?]

lemma fgetcWhile (p : Char → Bool) (h : At ch f text) :
    At (fgetcWhile p ch f).1 (fgetcWhile p ch f).2 (text.dropWhile p) := by
  induction text generalizing ch f with
  | nil =>
    cases h with
    | atEnd heof hahead =>
      rw [TestLib.fgetcWhile]
      exact .atEnd heof hahead
  | cons c text ih =>
    obtain rfl := h.eq_head?
    rw [List.head?_cons, TestLib.fgetcWhile]
    by_cases hp : p c = true
    · rw [if_pos hp, List.dropWhile_cons_of_pos hp]
      exact ih h.next
    · rw [if_neg hp, List.dropWhile_cons_of_neg hp]
      exact h

lemma getSign (h : At ch f text) :
    (getSign ch f).1 = (takeSign text).1 ∧
      At (getSign ch f).2.1 (getSign ch f).2.2 (takeSign text).2 := by
  unfold TestLib.getSign takeSign
  rw [← h.eq_head?]
  split
  · next hminus =>
    subst hminus
    exact ⟨rfl, h.next⟩
  · split
    · next hplus =>
      subst hplus
      exact ⟨rfl, h.next⟩
    · exact ⟨rfl, h⟩

end At

/-! ## Numbers -/

/-- The digits of a number do not make it smaller. -/
lemma le_foldl_digits (n : ℕ) (digits : CStr) :
    n ≤ digits.foldl (fun n c => 10 * n + (c.toNat - '0'.toNat)) n := by
  induction digits generalizing n with
  | nil => exact Nat.le_refl n
  | cons c digits ih =>
    rw [List.foldl_cons]
    refine Nat.le_trans ?_ (ih _)
    omega

/-- The number is in the range of a routine. -/
def InRange (max sign : ℤ) (n : ℕ) : Prop := -max - 1 ≤ n * sign ∧ n * sign ≤ max

/-- The range check after every digit is the check of the whole number. -/
lemma collectNumber_spec {max sign : ℤ} {n : ℕ} {readed : Bool} {ch : Option Char} {f : File}
    {text : CStr} (hsign : sign = 1 ∨ sign = -1) (h : At ch f text) (hn : InRange max sign n) :
    let digits := text.takeWhile Char.isDigit
    let val := digits.foldl (fun n c => 10 * n + (c.toNat - '0'.toNat)) n
    (InRange max sign val → ∃ ch' f', collectNumber max sign n readed ch f =
        .ok ((val : ℤ), readed || !digits.isEmpty, ch', f') ∧
      At ch' f' (text.dropWhile Char.isDigit)) ∧
    (¬InRange max sign val → ∃ desc, collectNumber max sign n readed ch f = .error desc) := by
  induction text generalizing ch f n readed with
  | nil =>
    obtain rfl := h.eq_head?
    refine ⟨fun _ => ⟨none, f, ?_, h⟩, fun hout => absurd hn hout⟩
    rw [List.head?_nil, collectNumber]
    simp
  | cons c text ih =>
    obtain rfl := h.eq_head?
    rw [List.head?_cons] at h ⊢
    rw [collectNumber]
    by_cases hc : c.isDigit = true
    · have hle := le_foldl_digits (10 * n + (c.toNat - '0'.toNat)) (text.takeWhile Char.isDigit)
      have hcast : (n : ℤ) * 10 + (c.toNat - '0'.toNat) =
          ((10 * n + (c.toNat - '0'.toNat) : ℕ) : ℤ) := by
        have hdigit := (Char.isDigit_iff_toNat.1 hc).1
        omega
      simp only [hc, if_true, hcast, List.takeWhile_cons_of_pos, List.dropWhile_cons_of_pos,
        List.foldl_cons]
      generalize 10 * n + (c.toNat - '0'.toNat) = m at hle ⊢
      by_cases hm : InRange max sign m
      · have hnot : ¬(sign * m < -max - 1 ∨ max < sign * m) := by
          unfold InRange at hm
          rw [Int.mul_comm sign]
          omega
        rw [if_neg hnot]
        simpa using @ih m true _ _ h.next hm
      · have hout : sign * m < -max - 1 ∨ max < sign * m := by
          unfold InRange at hm
          rw [Int.mul_comm sign]
          omega
        rw [if_pos hout]
        refine ⟨fun hin => ?_, fun _ => ⟨_, rfl⟩⟩
        -- a value out of range stays out of range with more digits
        unfold InRange at hm hin
        obtain rfl | rfl := hsign
        · omega
        · omega
    · rw [if_neg hc, List.takeWhile_cons_of_neg hc, List.dropWhile_cons_of_neg hc]
      exact ⟨fun _ => ⟨some c, f, by simp, h⟩, fun hout => absurd hn hout⟩

/-- A number is refused unless a digit was read and white space or nothing follows. -/
lemma refused_iff (blank readed : Bool) :
    (!blank || !readed) = true ↔ ¬(readed = true ∧ blank = true) := by
  cases blank <;> cases readed <;> decide

/-- A routine does to its stream what a function does to the text ahead. -/
def Agrees {α : Type} (r : Except CStr (α × File)) (p : Option (α × CStr)) : Prop :=
  match p with
  | none => ∃ desc, r = .error desc
  | some (v, rest) => ∃ g : File, r = .ok (v, g) ∧ g.Sound ∧ g.ahead = rest

variable {f : File}

lemma readNumber_agrees {max : ℤ} (hmax : 0 ≤ max) (h : f.Sound) :
    Agrees (readNumber max f) (number max f.ahead) := by
  have hskip := h.fgetc.fgetcWhile isSpace
  obtain ⟨hsign, hat⟩ := hskip.getSign
  have hzero : InRange max (takeSign (f.ahead.dropWhile isSpace)).1 0 := by
    unfold InRange
    omega
  obtain ⟨hin, hout⟩ := @collectNumber_spec max _ 0 false _ _ _ (takeSign_sign _) hat hzero
  unfold readNumber number
  have hcast : ((0 : ℕ) : ℤ) = 0 := rfl
  dsimp only at hin hout ⊢
  rw [hcast] at hin hout
  rw [hsign]
  set text := f.ahead.dropWhile isSpace
  by_cases hend : (fgetcWhile isSpace f.fgetc.1 f.fgetc.2).1 = none
  · have hnil : text = [] := by
      rw [hskip.eq_head?] at hend
      exact List.head?_eq_none_iff.1 hend
    rw [if_pos hend, if_neg (by simp [hnil, takeSign])]
    exact ⟨_, rfl⟩
  · rw [if_neg hend]
    set t := (takeSign text).2
    by_cases hrange : InRange max (takeSign text).1 (digitsValue (t.takeWhile Char.isDigit))
    · obtain ⟨ch, g, hcollect, hrest⟩ := hin hrange
      rw [hcollect]
      have hrefused : (!ends ch || !(false || !(t.takeWhile Char.isDigit).isEmpty)) = true ↔
          ¬(t.takeWhile Char.isDigit ≠ [] ∧
            (t.dropWhile Char.isDigit).head?.all isSpace = true) := by
        rw [refused_iff, hrest.ends]
        simp
      dsimp only
      by_cases hgood : t.takeWhile Char.isDigit ≠ [] ∧
          (t.dropWhile Char.isDigit).head?.all isSpace = true
      · rw [if_neg fun hquit => hrefused.1 hquit hgood,
          if_pos ⟨hgood.1, hrange.1, hrange.2, hgood.2⟩]
        exact ⟨_, rfl, hrest.goback⟩
      · rw [if_pos (hrefused.2 hgood), if_neg fun hall => hgood ⟨hall.1, hall.2.2.2⟩]
        exact ⟨_, rfl⟩
    · obtain ⟨desc, hcollect⟩ := hout hrange
      rw [hcollect, if_neg fun hall => hrange ⟨hall.2.1, hall.2.2.1⟩]
      exact ⟨desc, rfl⟩

/-! ## Floating-point numbers -/

/-- The test that is made at every point, with the digits before the last point and those read so
far. -/
def pointsGood (decimal : ℤ) (total : ℕ) : CStr → Bool
  | [] => true
  | c :: cs =>
    if isPoint c then !decide (0 < decimal) && pointsGood total total cs
    else pointsGood decimal (total + 1) cs

lemma pointsGood_of_pos {decimal : ℤ} {total : ℕ} (hdecimal : 0 < decimal) (cs : CStr) :
    pointsGood decimal total cs = true ↔ cs.countP isPoint = 0 := by
  induction cs generalizing total with
  | nil => simp [pointsGood]
  | cons c cs ih =>
    by_cases hc : isPoint c = true
    · simp [pointsGood, hc, hdecimal]
    · simp [pointsGood, hc, ih]

/-- After a digit one point may follow. -/
lemma pointsGood_of_total_pos {decimal : ℤ} {total : ℕ} (hdecimal : decimal ≤ 0)
    (htotal : 0 < total) (cs : CStr) :
    pointsGood decimal total cs = true ↔ cs.countP isPoint ≤ 1 := by
  induction cs generalizing total with
  | nil => simp [pointsGood]
  | cons c cs ih =>
    by_cases hc : isPoint c = true
    · have hpos : (0 : ℤ) < total := by omega
      have hnot : ¬0 < decimal := by omega
      simp [pointsGood, hc, hnot, pointsGood_of_pos hpos]
    · simp [pointsGood, hc, ih (Nat.succ_pos total)]

/-- Points in front do not count. -/
lemma pointsGood_iff {decimal : ℤ} (hdecimal : decimal ≤ 0) (cs : CStr) :
    pointsGood decimal 0 cs = true ↔ (cs.dropWhile isPoint).countP isPoint ≤ 1 := by
  induction cs generalizing decimal with
  | nil => simp [pointsGood]
  | cons c cs ih =>
    by_cases hc : isPoint c = true
    · have hnot : ¬0 < decimal := by omega
      simp [pointsGood, hc, hnot, @ih 0]
    · simp [pointsGood, hc, pointsGood_of_total_pos hdecimal Nat.one_pos]

lemma isDigit_of_isPoint {c : Char} (h : isPoint c = true) : c.isDigit = false := by
  simp only [isPoint, Bool.or_eq_true, beq_iff_eq] at h
  rcases h with rfl | rfl <;> decide

lemma collectFloat_spec {decimal : ℤ} {digits : CStr} {readed : Bool} {ch : Option Char}
    {text : CStr} (h : At ch f text) :
    let body := text.takeWhile isFloat
    (pointsGood decimal digits.length body = true →
      ∃ decimal' digits' ch' f', collectFloat decimal digits readed ch f =
          .ok (decimal', digits', (body.getLast?.map Char.isDigit).getD readed, ch', f') ∧
        At ch' f' (text.dropWhile isFloat)) ∧
    (pointsGood decimal digits.length body = false →
      ∃ desc, collectFloat decimal digits readed ch f = .error desc) := by
  induction text generalizing ch f decimal digits readed with
  | nil =>
    obtain rfl := h.eq_head?
    rw [List.head?_nil, collectFloat]
    exact ⟨fun _ => ⟨decimal, digits, none, f, by simp, h⟩, by simp [pointsGood]⟩
  | cons c text ih =>
    obtain rfl := h.eq_head?
    rw [List.head?_cons] at h ⊢
    rw [collectFloat]
    have hlast : ∀ readed, ((c :: text.takeWhile isFloat).getLast?.map Char.isDigit).getD readed =
        ((text.takeWhile isFloat).getLast?.map Char.isDigit).getD c.isDigit := by
      intro readed
      rw [List.getLast?_cons]
      cases (text.takeWhile isFloat).getLast? <;> rfl
    by_cases hpoint : isPoint c = true
    · have hfloat : isFloat c = true := by simp [isFloat, hpoint]
      rw [if_pos hpoint, List.takeWhile_cons_of_pos hfloat, List.dropWhile_cons_of_pos hfloat]
      simp only [pointsGood, hpoint, if_true, hlast, isDigit_of_isPoint hpoint]
      by_cases hdecimal : 0 < decimal
      · rw [if_pos hdecimal]
        simp [hdecimal]
      · rw [if_neg hdecimal]
        simpa [hdecimal] using @ih _ digits.length digits false _ h.next
    · rw [if_neg hpoint]
      by_cases hdigit : c.isDigit = true
      · have hfloat : isFloat c = true := by simp [isFloat, hdigit]
        rw [if_pos hdigit, List.takeWhile_cons_of_pos hfloat, List.dropWhile_cons_of_pos hfloat]
        have hstep := @ih _ decimal (digits ++ [c]) true _ h.next
        rw [List.length_append, List.length_singleton] at hstep
        simpa only [pointsGood, hpoint, Bool.false_eq_true, if_false, hlast, hdigit] using hstep
      · have hfloat : ¬isFloat c = true := by simp [isFloat, hpoint, hdigit]
        rw [if_neg hdigit, List.takeWhile_cons_of_neg hfloat, List.dropWhile_cons_of_neg hfloat]
        exact ⟨fun _ => ⟨decimal, digits, some c, f, by simp, h⟩, by simp [pointsGood]⟩

/-- A routine whose value does not matter does to its stream what a function does to the text. -/
def Leaves (r : Except CStr File) (p : Option CStr) : Prop :=
  match p with
  | none => ∃ desc, r = .error desc
  | some rest => ∃ g : File, r = .ok g ∧ g.Sound ∧ g.ahead = rest

lemma Agrees.leaves {α : Type} {r : Except CStr (α × File)} {p : Option (α × CStr)}
    (h : Agrees r p) : Leaves (r.map Prod.snd) (p.map Prod.snd) := by
  cases p with
  | none =>
    obtain ⟨desc, rfl⟩ := h
    exact ⟨desc, rfl⟩
  | some x =>
    obtain ⟨g, rfl, hg⟩ := h
    exact ⟨g, rfl, hg⟩

lemma readFloat_leaves (h : f.Sound) : Leaves ((readFloat f).map Prod.snd) (float f.ahead) := by
  obtain ⟨-, hat⟩ := (h.fgetc.fgetcWhile isSpace).getSign
  obtain ⟨hgood, hbad⟩ := @collectFloat_spec _ (-1) [] false _ _ hat
  unfold readFloat float
  dsimp only at hgood hbad ⊢
  set t := (takeSign (f.ahead.dropWhile isSpace)).2
  have hiff := pointsGood_iff (by omega : (-1 : ℤ) ≤ 0) (t.takeWhile isFloat)
  have hany : (t.takeWhile isFloat).getLast?.any Char.isDigit =
      ((t.takeWhile isFloat).getLast?.map Char.isDigit).getD false := by
    cases (t.takeWhile isFloat).getLast? <;> rfl
  cases hpoints : pointsGood (-1) 0 (t.takeWhile isFloat) with
  | false =>
    obtain ⟨desc, hcollect⟩ := hbad hpoints
    rw [hcollect, if_neg fun hall => by simp [hiff.2 hall.1] at hpoints]
    exact ⟨desc, rfl⟩
  | true =>
    obtain ⟨decimal, digits, ch, g, hcollect, hrest⟩ := hgood hpoints
    rw [hcollect, hany]
    simp only [hrest.ends, hiff.1 hpoints, true_and]
    generalize ((t.takeWhile isFloat).getLast?.map Char.isDigit).getD false = readed
    generalize (t.dropWhile isFloat).head?.all isSpace = blank
    by_cases hboth : readed = true ∧ blank = true
    · rw [if_pos hboth, hboth.1, hboth.2]
      exact ⟨_, rfl, hrest.goback⟩
    · rw [if_neg hboth, if_pos ((refused_iff blank readed).2 hboth)]
      exact ⟨_, rfl⟩

/-! ## Characters and lines -/

lemma collectString_spec {n : ℕ} {buf : CStr} {ch : Option Char} {text : CStr} (h : At ch f text) :
    let taken := (text.takeWhile inLine).take n
    ∃ ch' f', collectString n buf ch f = (buf ++ taken, ch', f') ∧
      At ch' f' (text.drop taken.length) := by
  induction n generalizing ch f text buf with
  | zero => exact ⟨ch, f, by simp [collectString], h⟩
  | succ n ih =>
    obtain rfl := h.eq_head?
    cases text with
    | nil => exact ⟨none, f, by simp [collectString], h⟩
    | cons c text =>
      rw [List.head?_cons] at h ⊢
      rw [collectString]
      by_cases hc : inLine c = true
      · rw [if_pos hc, List.takeWhile_cons_of_pos hc]
        obtain ⟨ch', f', hcollect, hrest⟩ := @ih _ (buf ++ [c]) _ _ h.next
        refine ⟨ch', f', ?_, ?_⟩
        · rw [hcollect]
          simp
        · simpa using hrest
      · rw [if_neg hc, List.takeWhile_cons_of_neg hc]
        exact ⟨some c, f, by simp, h⟩

lemma readString_agrees (maxlen : ℤ) (h : f.Sound) :
    Agrees (readString maxlen f) (line maxlen f.ahead) := by
  have hat := h.fgetc
  obtain ⟨ch, g, hcollect, hrest⟩ := @collectString_spec _ maxlen.toNat [] _ _ hat
  unfold readString line
  dsimp only at hcollect hrest ⊢
  set taken := (f.ahead.takeWhile inLine).take maxlen.toNat
  rw [hcollect, List.nil_append]
  by_cases hnil : f.ahead = []
  · rw [if_pos hnil, if_pos (by rw [hat.eq_head?, hnil]; rfl)]
    exact ⟨_, rfl⟩
  · rw [if_neg hnil, if_neg (by rw [hat.eq_head?]; simpa using hnil)]
    generalize f.ahead.drop taken.length = text at hrest ⊢
    dsimp only
    by_cases hcr : ch = some '\r'
    · subst hcr
      rw [if_pos rfl]
      have hnext := hrest.next
      obtain ⟨tail, rfl⟩ : ∃ tail, text = '\r' :: tail :=
        List.head?_eq_some_iff.1 hrest.eq_head?.symm
      rw [List.tail_cons] at hnext
      by_cases hlf : g.fgetc.1 = some '\n'
      · rw [if_pos hlf]
        obtain ⟨rest, rfl⟩ : ∃ rest, tail = '\n' :: rest :=
          List.head?_eq_some_iff.1 (hnext.eq_head?.symm.trans hlf)
        exact ⟨_, rfl, hnext.sound, hnext.ahead⟩
      · rw [if_neg hlf]
        have hskip : skipEnd ('\r' :: tail) = tail := by
          unfold skipEnd
          split
          · next heq =>
            obtain ⟨-, rfl⟩ := List.cons_eq_cons.1 heq
            exact absurd hnext.eq_head? hlf
          · next heq => exact (List.cons_eq_cons.1 heq).2.symm
          · next heq => cases heq
        rw [hskip]
        exact ⟨_, rfl, hnext.goback⟩
    · rw [if_neg hcr]
      have hskip : skipEnd text = text.tail := by
        unfold skipEnd
        split
        · exact absurd hrest.eq_head? hcr
        · rfl
        · rfl
      rw [hskip]
      exact ⟨_, rfl, hrest.sound, hrest.ahead⟩

lemma readChar_leaves (h : f.Sound) :
    Leaves ((readChar f).map Prod.snd) (Op.readChar.parse f.ahead) := by
  have hat := h.fgetc
  unfold readChar Op.parse
  cases htext : f.ahead with
  | nil =>
    rw [htext] at hat
    have hch : f.fgetc = (none, f.fgetc.2) := Prod.ext hat.eq_head? rfl
    rw [hch]
    exact ⟨_, rfl⟩
  | cons c text =>
    rw [htext] at hat
    have hch : f.fgetc = (some c, f.fgetc.2) := Prod.ext hat.eq_head? rfl
    rw [hch]
    exact ⟨_, rfl, hat.sound, hat.ahead⟩

lemma nextLine_leaves (h : f.Sound) : Leaves (nextLine f) (lineAfter f.ahead) := by
  have hat := h.fgetc.fgetcWhile inLine
  unfold nextLine lineAfter
  set r := fgetcWhile inLine f.fgetc.1 f.fgetc.2
  cases htext : f.ahead.dropWhile inLine with
  | nil =>
    rw [htext] at hat
    have hch : r = (none, r.2) := Prod.ext hat.eq_head? rfl
    rw [hch]
    exact ⟨_, rfl⟩
  | cons c text =>
    rw [htext] at hat
    have hch : r = (some c, r.2) := Prod.ext hat.eq_head? rfl
    rw [hch] at hat ⊢
    dsimp only
    by_cases hc : c = '\n'
    · have hnext := hat.next
      rw [List.tail_cons] at hnext
      rw [if_pos hc, if_pos hc]
      cases text with
      | nil =>
        have hch' : r.2.fgetc = (none, r.2.fgetc.2) := Prod.ext hnext.eq_head? rfl
        rw [hch']
        exact ⟨_, rfl⟩
      | cons d text =>
        have hch' : r.2.fgetc = (some d, r.2.fgetc.2) := Prod.ext hnext.eq_head? rfl
        rw [hch'] at hnext ⊢
        dsimp only
        by_cases hd : d = '\r'
        · rw [if_pos hd, if_pos hd]
          exact ⟨_, rfl, hnext.sound, hnext.ahead⟩
        · rw [if_neg hd, if_neg hd]
          exact ⟨_, rfl, hnext.goback⟩
    · rw [if_neg hc, if_neg hc]
      exact ⟨_, rfl, hat.goback⟩

lemma seekeof_eq (h : f.Sound) : (seekeof f).1 = true ↔ ∀ c ∈ f.ahead, isSpace c = true := by
  unfold seekeof
  by_cases heof : f.eof = true
  · simp [heof, h heof]
  · have hat := h.fgetc.fgetcWhile isSpace
    rw [if_neg heof, ← List.dropWhile_eq_nil_iff]
    set r := fgetcWhile isSpace f.fgetc.1 f.fgetc.2
    cases htext : f.ahead.dropWhile isSpace with
    | nil =>
      rw [htext] at hat
      have hch : r = (none, r.2) := Prod.ext hat.eq_head? rfl
      rw [hch]
      simp
    | cons c text =>
      rw [htext] at hat
      have hch : r = (some c, r.2) := Prod.ext hat.eq_head? rfl
      rw [hch]
      simp

/-! ## The verdict -/

/-- Every read does to its stream what `parse` does to the text ahead. -/
theorem Op.read_leaves (h : f.Sound) (op : Op) : Leaves (op.read f) (op.parse f.ahead) := by
  cases op with
  | readInteger => exact (readNumber_agrees (by omega) h).leaves
  | readLongint => exact (readNumber_agrees (by omega) h).leaves
  | readFloat => exact readFloat_leaves h
  | readString maxlen => exact (readString_agrees maxlen h).leaves
  | readChar => exact readChar_leaves h
  | nextLine => exact nextLine_leaves h

/-- The code of the exit, from the reads and the text that they leave. -/
def verdict : Except Which (Which → CStr) → Code
  | .error .output => .pe
  | .error _ => .cr
  | .ok texts => if (texts .output).all isSpace then .ok else .pe

lemma check_code {ops : List (Which × Op)} {fs : Which → File} (h : ∀ w, (fs w).Sound) :
    (check ops fs).code = verdict (parseAll ops fun w => (fs w).ahead) := by
  induction ops generalizing fs with
  | nil =>
    have heof := seekeof_eq (h .output)
    rw [check, parseAll, verdict, testlibQuit, if_pos rfl]
    by_cases hall : ∀ c ∈ (fs .output).ahead, isSpace c = true
    · rw [if_pos (heof.2 hall), if_pos (List.all_eq_true.2 hall)]
    · rw [if_neg fun hs => hall (heof.1 hs), if_neg fun hs => hall (List.all_eq_true.1 hs)]
  | cons x ops ih =>
    obtain ⟨w, op⟩ := x
    have hread := Op.read_leaves (h w) op
    rw [check, parseAll]
    cases hparse : op.parse (fs w).ahead with
    | none =>
      rw [hparse] at hread
      obtain ⟨desc, hdesc⟩ := hread
      rw [hdesc]
      cases w <;> rfl
    | some rest =>
      rw [hparse] at hread
      obtain ⟨g, hg, hsound, hrest⟩ := hread
      rw [hg]
      dsimp only
      rw [ih]
      · congr 2
        funext v
        by_cases hv : v = w
        · subst hv
          simp [hrest]
        · simp [hv]
      · intro v
        by_cases hv : v = w
        · subst hv
          simpa using hsound
        · simpa [hv] using h v

/-- A checker exits with `_PE` exactly when its first failed read is on the output or its reads
leave something else than white space of it, with `_CR` exactly when the first failed read is on
the input or the answer, and with `_OK` exactly when no read fails and only white space of the
output is left. -/
theorem check_verdict (ops : List (Which × Op)) (texts : Which → CStr) :
    let code := (check ops fun w => .fopen (texts w)).code
    (code = .pe ↔ parseAll ops texts = .error .output ∨
      ∃ left, parseAll ops texts = .ok left ∧ ∃ c ∈ left .output, isSpace c = false) ∧
    (code = .cr ↔ parseAll ops texts = .error .input ∨ parseAll ops texts = .error .answer) ∧
    (code = .ok ↔ ∃ left, parseAll ops texts = .ok left ∧
      ∀ c ∈ left .output, isSpace c = true) := by
  have hcode : (check ops fun w => .fopen (texts w)).code = verdict (parseAll ops texts) :=
    check_code fun w h => by simp [File.fopen] at h
  dsimp only
  rw [hcode]
  cases parseAll ops texts with
  | error w => cases w <;> simp [verdict]
  | ok left =>
    by_cases hall : ∀ c ∈ left .output, isSpace c = true
    · have hnone : ¬∃ c ∈ left .output, isSpace c = false := by
        rintro ⟨c, hc, hspace⟩
        simp [hall c hc] at hspace
      simpa [verdict, List.all_eq_true.2 hall, hnone] using hall
    · have hsome : ∃ c ∈ left .output, isSpace c = false := by
        simpa using hall
      have hfalse : (left .output).all isSpace = false := by
        rw [Bool.eq_false_iff]
        exact fun h => hall (List.all_eq_true.1 h)
      simp [verdict, hfalse, hsome, hall]

end WebTester.TestLib
