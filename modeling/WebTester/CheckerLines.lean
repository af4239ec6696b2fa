import WebTester.Checking

/-!
# The lines that a checker reads

The look-ahead routines read a character and put it back, each in its own way. What they should
tell is stated for the text ahead of the position, whatever was read before, and the condition
under which they do so for the position.
-/
namespace WebTester.TestLib
open CString

/-! ## Look-ahead -/

/-- `testlib_cur_char`. -/
def curChar (f : File) : Except CStr (Char × File) :=
  match f.fgetc.1 with
  | none => .error "No chars to read".toList
  | some c => .ok (c, f.fgetc.2.goback)

/-- `testlib_eof`. -/
def eof (f : File) : Bool × File := (f.fgetc.1.isNone, f.fgetc.2.goback)

/-- What ends a line: a newline, a carriage return or the end of the file. -/
def endsLine (ch : Option Char) : Bool := ch.all (!inLine ·)

/-- `testlib_eoln`. The character that it reads is the one before the position, if there is one
and the end of the file was not met. -/
def eoln (f : File) : Bool × File := (endsLine f.goback.fgetc.1, f.goback.fgetc.2)

/-- White space within a line. -/
def isBlank (c : Char) : Bool := isSpace c && inLine c

/-- `testlib_seekeoln`. -/
def seekeoln (f : File) : Bool × File :=
  if f.eof then (true, f)
  else
    let r := fgetcWhile isBlank f.fgetc.1 f.fgetc.2
    (endsLine r.1, if r.1 = none then r.2 else r.2.goback)

/-- A loop of a checker: while `testlib_eoln` is false, `testlib_read_char`. -/
def readLine : ℕ → CStr → File → Option (Except CStr (CStr × File))
  | 0, _, _ => none
  | fuel + 1, line, f =>
    if (eoln f).1 then some (.ok (line, (eoln f).2))
    else match readChar (eoln f).2 with
      | .error desc => some (.error desc)
      | .ok (c, g) => readLine fuel (line ++ [c]) g

/-! ## Texts with lines -/

/-- How the lines of a text end. -/
inductive Style
  | lf
  | crlf
  | cr
  deriving DecidableEq, Repr

def Style.eol : Style → CStr
  | lf => ['\n']
  | crlf => ['\r', '\n']
  | cr => ['\r']

/-- Some lines, each with its end. -/
def Style.lines (st : Style) (ls : List CStr) : CStr := ls.flatMap (· ++ st.eol)

/-- A line without its end. -/
def IsLine (l : CStr) : Prop := ∀ c ∈ l, inLine c = true

/-- The stream is on a line or in its end, and `next` is what follows that line. -/
structure OnLine (st : Style) (f : File) (next : CStr) : Prop where
  sound : f.Sound
  position : ∃ ls line done left, (∀ l ∈ ls, IsLine l) ∧ IsLine line ∧
    f.behind.reverse = st.lines ls ++ done ∧ done ++ left = line ++ st.eol ∧ left ≠ [] ∧
    f.ahead = left ++ next
  next_text : ∃ ls last, (∀ l ∈ ls, IsLine l) ∧ IsLine last ∧ next = st.lines ls ++ last
  next_ne : next ≠ []

/-! ## What the routines should do -/

/-- The stream is left before the next line. -/
def NextLineRight (f : File) (next : CStr) : Prop := ∃ g, nextLine f = .ok g ∧ g.ahead = next

/-- The end of the line is told by the next character, and at most blanks are passed. -/
def EolnRight (f : File) : Prop :=
  ((eoln f).1 = true ↔ endsLine f.ahead.head? = true) ∧
    ∃ blanks, (∀ c ∈ blanks, isSpace c = true) ∧ f.ahead = blanks ++ (eoln f).2.ahead

/-- The end of the file is told by the text ahead, and nothing is passed. -/
def EofRight (f : File) : Prop := ((eof f).1 = true ↔ f.ahead = []) ∧ (eof f).2.ahead = f.ahead

/-- The end of the line is told by the character after the blanks, which are passed. -/
def SeekeolnRight (f : File) : Prop :=
  ((seekeoln f).1 = true ↔ endsLine (f.ahead.dropWhile isBlank).head? = true) ∧
    (seekeoln f).2.ahead = f.ahead.dropWhile isBlank

/-- The next character is told, if there is one, and nothing is passed. -/
def CurCharRight (f : File) : Prop :=
  (f.ahead = [] → ∃ desc, curChar f = .error desc) ∧
    ∀ c, f.ahead.head? = some c → ∃ g, curChar f = .ok (c, g) ∧ g.ahead = f.ahead

/-- The loop reads the rest of the line, and nothing else. -/
def LineVisited (f : File) : Prop :=
  ∃ fuel g, readLine fuel [] f = some (.ok (f.ahead.takeWhile inLine, g))

/-- The character before the position, where `testlib_eoln` looks at it. -/
def charBefore (f : File) : Option Char := if f.eof then none else f.behind.head?

variable {f : File} {st : Style} {next : CStr} {c : Char}

/-! ## Lines -/

lemma Leaves.right_iff {r : Except CStr File} {p : Option CStr} {text : CStr} (h : Leaves r p) :
    (∃ g, r = .ok g ∧ g.ahead = text) ↔ p = some text := by
  cases p with
  | none =>
    obtain ⟨desc, rfl⟩ := h
    simp
  | some rest =>
    obtain ⟨g, rfl, -, rfl⟩ := h
    simp

/-- What is left of the end of a line: all of it, or the second of two characters. -/
lemma eol_suffix {a left : CStr} (h : st.eol = a ++ left) (hne : left ≠ []) :
    left = st.eol ∨ st = .crlf ∧ left = ['\n'] := by
  cases a with
  | nil => exact .inl h.symm
  | cons c a =>
    obtain ⟨d, left, rfl⟩ := List.exists_cons_of_ne_nil hne
    cases st with
    | lf => simp [Style.eol] at h
    | cr => simp [Style.eol] at h
    | crlf =>
      cases a with
      | nil => exact .inr ⟨rfl, (List.cons_eq_cons.1 h).2.symm⟩
      | cons c a => simp [Style.eol] at h

/-- A position on a line: before its end, or within the two characters of it. -/
lemma OnLine.ahead_cases (h : OnLine st f next) :
    (∃ rest, IsLine rest ∧ f.ahead = rest ++ (st.eol ++ next)) ∨
      st = .crlf ∧ f.ahead = '\n' :: next := by
  obtain ⟨ls, line, done, left, -, hline, -, hsplit, hne, hahead⟩ := h.position
  rw [hahead]
  rcases List.append_eq_append_iff.1 hsplit with ⟨rest, rfl, rfl⟩ | ⟨a, rfl, heol⟩
  · refine .inl ⟨rest, fun c hc => hline c (List.mem_append_right _ hc), ?_⟩
    rw [List.append_assoc]
  · rcases eol_suffix heol hne with rfl | ⟨hst, rfl⟩
    · exact .inl ⟨[], List.forall_mem_nil _, rfl⟩
    · exact .inr ⟨hst, rfl⟩

lemma dropWhile_line {rest after : CStr} (hrest : IsLine rest) (hc : inLine c = false) :
    (rest ++ c :: after).dropWhile inLine = c :: after := by
  refine (takeWhile_append_stop hrest fun d hd => ?_).2
  obtain rfl := Option.some.inj hd
  exact hc

lemma lineAfter_append {rest after : CStr} (hrest : IsLine rest) (hc : inLine c = false) :
    lineAfter (rest ++ c :: after) = lineAfter (c :: after) := by
  rw [lineAfter, lineAfter, dropWhile_line hrest hc, List.dropWhile_cons_of_neg (by simp [hc])]

/-- The routine stays before a carriage return. -/
lemma lineAfter_cr (text : CStr) : lineAfter ('\r' :: text) = some ('\r' :: text) := rfl

lemma lineAfter_ne {text rest : CStr} (h : lineAfter text = some rest)
    (hlen : rest.length ≠ next.length) : lineAfter text ≠ some next := by
  rw [h]
  intro heq
  exact hlen (congrArg List.length (Option.some.inj heq))

/-- A text whose lines end with a newline does not begin with a carriage return. -/
lemma OnLine.head?_ne (h : OnLine .lf f next) : next.head? ≠ some '\r' := by
  intro hhead
  obtain ⟨ls, last, hls, hlast, rfl⟩ := h.next_text
  have hcr : ¬inLine '\r' = true := by decide
  cases ls with
  | nil => exact hcr (hlast _ (List.mem_of_head? hhead))
  | cons l ls =>
    cases l with
    | nil => simp [Style.lines, Style.eol] at hhead
    | cons d l =>
      obtain rfl := Option.some.inj hhead
      exact hcr (hls _ List.mem_cons_self _ List.mem_cons_self)

/-- The next line is found if and only if lines end with a newline, or the stream is between the
two characters of an end and the next line is not empty. -/
lemma OnLine.nextLineRight_iff (h : OnLine st f next) :
    NextLineRight f next ↔
      st = .lf ∨ st = .crlf ∧ f.ahead = '\n' :: next ∧ next.head? ≠ some '\r' := by
  rw [NextLineRight, (nextLine_leaves h.sound).right_iff]
  obtain ⟨d, next', hnext⟩ := List.exists_cons_of_ne_nil h.next_ne
  have hlf : lineAfter ('\n' :: next) = some (if d = '\r' then next' else d :: next') := by
    rw [hnext]
    rfl
  obtain ⟨rest, hrest, hahead⟩ | ⟨rfl, hahead⟩ := h.ahead_cases
  · cases st with
    | lf =>
      refine iff_of_true ?_ (.inl rfl)
      have hd : d ≠ '\r' := by
        rintro rfl
        exact h.head?_ne (by rw [hnext]; rfl)
      rw [hahead, Style.eol, List.singleton_append, lineAfter_append hrest (by decide), hlf,
        if_neg hd, hnext]
    | crlf =>
      have hafter : lineAfter f.ahead = some ('\r' :: '\n' :: next) := by
        rw [hahead]
        exact (lineAfter_append hrest (by decide)).trans (lineAfter_cr _)
      have hlength : ('\r' :: '\n' :: next).length ≠ next.length := by
        rw [List.length_cons, List.length_cons]
        omega
      refine iff_of_false (lineAfter_ne hafter hlength) ?_
      rintro (hst | ⟨-, heq, -⟩)
      · cases hst
      · have hlen := congrArg List.length (hahead.symm.trans heq)
        simp only [Style.eol, List.length_append, List.length_cons, List.length_nil] at hlen
        omega
    | cr =>
      have hafter : lineAfter f.ahead = some ('\r' :: next) := by
        rw [hahead]
        exact (lineAfter_append hrest (by decide)).trans (lineAfter_cr _)
      exact iff_of_false (lineAfter_ne hafter (by rw [List.length_cons]; omega)) (by simp)
  · rw [hahead]
    by_cases hd : d = '\r'
    · rw [if_pos hd] at hlf
      refine iff_of_false (lineAfter_ne hlf (by rw [hnext, List.length_cons]; omega)) ?_
      simp [hnext, hd]
    · rw [hlf, if_neg hd, hnext]
      exact iff_of_true rfl (.inr ⟨rfl, rfl, by simpa using hd⟩)

/-! ## The end of a line -/

lemma eoln_of_eof (h : f.Sound) (heof : f.eof = true) : eoln f = (true, f) := by
  obtain ⟨behind, ahead, eof⟩ := f
  obtain rfl : eof = true := heof
  obtain rfl : ahead = [] := h rfl
  rfl

lemma eoln_of_start (hstart : f.behind = []) (heof : f.eof = false) :
    eoln f = (endsLine f.ahead.head?, f.fgetc.2) := by
  obtain ⟨behind, ahead, eof⟩ := f
  obtain rfl : behind = [] := hstart
  obtain rfl : eof = false := heof
  cases ahead <;> rfl

/-- The character before the position is read again. -/
lemma eoln_of_behind (hbefore : charBefore f = some c) : eoln f = (!inLine c, f) := by
  obtain ⟨behind, ahead, eof⟩ := f
  cases eof with
  | true => cases hbefore
  | false =>
    obtain ⟨behind, rfl⟩ : ∃ b, behind = c :: b := List.head?_eq_some_iff.1 hbefore
    rfl

/-- Where `testlib_eoln` looks. -/
lemma eoln_cases (f : File) :
    f.eof = true ∨ f.eof = false ∧ f.behind = [] ∨ ∃ c, charBefore f = some c := by
  unfold charBefore
  cases f.eof with
  | true => exact .inl rfl
  | false =>
    cases f.behind with
    | nil => exact .inr (.inl ⟨rfl, rfl⟩)
    | cons c behind => exact .inr (.inr ⟨c, rfl⟩)

lemma charBefore_of_eof (heof : f.eof = true) : charBefore f = none := if_pos heof

lemma charBefore_of_start (hstart : f.behind = []) : charBefore f = none := by
  rw [charBefore, hstart, List.head?_nil, ite_self]

/-- Next to a character that was read. -/
lemma eof_of_charBefore (hbefore : charBefore f = some c) : f.eof = false := by
  by_contra heof
  rw [Bool.not_eq_false] at heof
  rw [charBefore_of_eof heof] at hbefore
  cases hbefore

lemma behind_ne_of_charBefore (hbefore : charBefore f = some c) : f.behind ≠ [] := by
  intro hstart
  rw [charBefore_of_start hstart] at hbefore
  cases hbefore

/-- The test is right if and only if the end of the file was met, or the stream is at the
beginning of the file and not before a character that is not blank, or the character before the
position and the one after it both end a line or both do not. -/
lemma eolnRight_iff (h : f.Sound) : EolnRight f ↔ f.eof = true ∨
    f.eof = false ∧ f.behind = [] ∧ f.ahead.head?.all isSpace = true ∨
    ∃ c, charBefore f = some c ∧ (inLine c = false ↔ endsLine f.ahead.head? = true) := by
  obtain heof | ⟨heof, hstart⟩ | ⟨c, hbefore⟩ := eoln_cases f
  · have hahead := h heof
    refine iff_of_true ?_ (.inl heof)
    rw [EolnRight, eoln_of_eof h heof, hahead]
    exact ⟨iff_of_true rfl rfl, [], List.forall_mem_nil _, rfl⟩
  · rw [EolnRight, eoln_of_start hstart heof, heof, charBefore_of_start hstart]
    simp only [hstart, true_and, Bool.false_eq_true, false_or, reduceCtorEq, false_and,
      exists_false, or_false]
    rw [h.fgetc.ahead]
    cases f.ahead with
    | nil => exact iff_of_true ⟨[], List.forall_mem_nil _, rfl⟩ rfl
    | cons d rest =>
      constructor
      · rintro ⟨blanks, hblanks, heq⟩
        have hd : d :: rest = blanks ++ rest := heq
        rw [← List.singleton_append, List.append_left_inj] at hd
        exact hblanks d (hd ▸ List.mem_cons_self)
      · intro hd
        exact ⟨[d], by simpa using hd, rfl⟩
  · have hbehind := behind_ne_of_charBefore hbefore
    rw [EolnRight, eoln_of_behind hbefore, eof_of_charBefore hbefore, hbefore]
    constructor
    · intro hright
      exact .inr (.inr ⟨c, rfl, by simpa using hright.1⟩)
    · rintro (heof | ⟨-, hstart, -⟩ | ⟨d, hd, hright⟩)
      · cases heof
      · exact absurd hstart hbehind
      · cases hd
        exact ⟨by simpa using hright, [], List.forall_mem_nil _, rfl⟩

/-! ## Lines one character after the other -/

lemma At.charBefore_eq {text : CStr} (h : At (some c) f text) : charBefore f = some c := by
  cases h with
  | char heof hbehind => rw [charBefore, heof, if_neg (by decide), hbehind]

/-- Where the stream is after a character was read. -/
lemma readChar_ok {g : File} (h : f.Sound) (hread : readChar f = .ok (c, g)) :
    g.Sound ∧ charBefore g = some c := by
  have hat := h.fgetc
  unfold readChar at hread
  generalize f.fgetc = r at hat hread
  obtain ⟨ch, f'⟩ := r
  cases ch with
  | none => cases hread
  | some d =>
    cases hread
    exact ⟨hat.sound, hat.charBefore_eq⟩

/-- A test that is false is followed by a character. -/
lemma readLine_succ {fuel : ℕ} {acc : CStr} {r : CStr × File} (heoln : (eoln f).1 = false)
    (hread : readLine (fuel + 1) acc f = some (.ok r)) :
    ∃ c g, readChar (eoln f).2 = .ok (c, g) ∧ readLine fuel (acc ++ [c]) g = some (.ok r) := by
  rw [readLine, if_neg (by simp [heoln])] at hread
  split at hread
  · cases hread
  · next c g hchar => exact ⟨c, g, hchar, hread⟩

/-- Behind a character that it has read, the loop goes on to the next end of a line and reads
it. -/
lemma readLine_passes {fuel : ℕ} {acc : CStr} {r : CStr × File} {g : File} (h : f.Sound)
    (hchar : readChar f = .ok (c, g)) (hread : readLine fuel (acc ++ [c]) g = some (.ok r)) :
    ∃ d ∈ r.1, inLine d = false := by
  induction fuel generalizing f c g acc with
  | zero => cases hread
  | succ fuel ih =>
    obtain ⟨hsound, hbefore⟩ := readChar_ok h hchar
    have heoln := eoln_of_behind hbefore
    by_cases hc : inLine c = false
    · rw [readLine, heoln, hc] at hread
      cases hread
      exact ⟨c, List.mem_append_right _ List.mem_cons_self, hc⟩
    · rw [Bool.not_eq_false] at hc
      rw [hc] at heoln
      obtain ⟨c', g', hchar', hread'⟩ := readLine_succ (by rw [heoln]; rfl) hread
      rw [heoln] at hchar'
      exact ih hsound hchar' hread'

lemma eoln_sound (h : f.Sound) : (eoln f).2.Sound := by
  obtain heof | ⟨heof, hstart⟩ | ⟨c, hbefore⟩ := eoln_cases f
  · rwa [eoln_of_eof h heof]
  · rw [eoln_of_start hstart heof]
    exact h.fgetc.sound
  · rwa [eoln_of_behind hbefore]

lemma takeWhile_inLine_eq_nil (text : CStr) :
    text.takeWhile inLine = [] ↔ endsLine text.head? = true := by
  cases text with
  | nil => simp [endsLine]
  | cons c text => simp [endsLine, List.takeWhile_cons]

/-- Where the test is true nothing is read, and where it is false too much. -/
lemma lineVisited_iff_eoln (h : f.Sound) :
    LineVisited f ↔ endsLine f.ahead.head? = true ∧ (eoln f).1 = true := by
  rw [← takeWhile_inLine_eq_nil]
  constructor
  · rintro ⟨fuel, g, hread⟩
    cases fuel with
    | zero => cases hread
    | succ fuel =>
      cases heoln : (eoln f).1 with
      | true =>
        rw [readLine, if_pos heoln] at hread
        simp only [Option.some.injEq, Except.ok.injEq, Prod.mk.injEq] at hread
        exact ⟨hread.1.symm, rfl⟩
      | false =>
        obtain ⟨c, g', hchar, hread'⟩ := readLine_succ heoln hread
        obtain ⟨d, hd, hend⟩ := readLine_passes (eoln_sound h) hchar hread'
        rw [List.mem_takeWhile_imp hd] at hend
        cases hend
  · rintro ⟨hnil, heoln⟩
    exact ⟨1, (eoln f).2, by rw [readLine, if_pos heoln, hnil]⟩

/-- The loop is right if and only if there is nothing to read, and that is told by the character
that `testlib_eoln` looks at. -/
lemma lineVisited_iff (h : f.Sound) : LineVisited f ↔ endsLine f.ahead.head? = true ∧
    (f.eof = true ∨ f.eof = false ∧ f.behind = [] ∨
      ∃ c, charBefore f = some c ∧ inLine c = false) := by
  rw [lineVisited_iff_eoln h]
  refine and_congr_right fun hend => ?_
  obtain heof | ⟨heof, hstart⟩ | ⟨c, hbefore⟩ := eoln_cases f
  · rw [eoln_of_eof h heof]
    exact iff_of_true rfl (.inl heof)
  · rw [eoln_of_start hstart heof]
    exact iff_of_true hend (.inr (.inl ⟨heof, hstart⟩))
  · have hbehind := behind_ne_of_charBefore hbefore
    rw [eoln_of_behind hbefore, eof_of_charBefore hbefore, hbefore]
    simp [hbehind]

lemma eofRight (h : f.Sound) : EofRight f := by
  obtain ⟨-, hahead⟩ := h.fgetc.goback
  refine ⟨?_, hahead⟩
  rw [eof, h.fgetc.eq_head?]
  cases f.ahead <;> simp

lemma seekeolnRight (h : f.Sound) : SeekeolnRight f := by
  unfold SeekeolnRight seekeoln
  by_cases heof : f.eof = true
  · rw [if_pos heof, h heof]
    exact ⟨iff_of_true rfl rfl, rfl⟩
  · have hat := h.fgetc.fgetcWhile isBlank
    rw [if_neg heof]
    dsimp only
    generalize fgetcWhile isBlank f.fgetc.1 f.fgetc.2 = r at hat
    refine ⟨by rw [hat.eq_head?], ?_⟩
    by_cases hend : r.1 = none
    · rw [if_pos hend, hat.ahead]
      rw [hat.eq_head?, List.head?_eq_none_iff] at hend
      rw [hend, List.tail_nil]
    · rw [if_neg hend]
      exact hat.goback.2

lemma curCharRight (h : f.Sound) : CurCharRight f := by
  have hhead := h.fgetc.eq_head?
  obtain ⟨-, hahead⟩ := h.fgetc.goback
  constructor
  · intro hnil
    rw [hnil] at hhead
    rw [curChar, hhead]
    exact ⟨_, rfl⟩
  · intro c hc
    rw [hc] at hhead
    rw [curChar, hhead]
    exact ⟨_, rfl, hahead⟩

/-! ## Navigation -/

/-- `testlib_next_line` is right where lines end with a newline, and between the two characters of
an end before a line that is not empty. `testlib_eoln` and a loop with it are right where the
character before the position tells the same as the next one. The other tests are right. -/
theorem navigation_iff {f : File} (h : f.Sound) :
    (∀ st next, OnLine st f next → (NextLineRight f next ↔
      st = .lf ∨ st = .crlf ∧ f.ahead = '\n' :: next ∧ next.head? ≠ some '\r')) ∧
    (EolnRight f ↔ f.eof = true ∨
      f.eof = false ∧ f.behind = [] ∧ f.ahead.head?.all isSpace = true ∨
      ∃ c, charBefore f = some c ∧ (inLine c = false ↔ endsLine f.ahead.head? = true)) ∧
    (LineVisited f ↔ endsLine f.ahead.head? = true ∧
      (f.eof = true ∨ f.eof = false ∧ f.behind = [] ∨
        ∃ c, charBefore f = some c ∧ inLine c = false)) ∧
    EofRight f ∧ SeekeolnRight f ∧ CurCharRight f :=
  ⟨fun _ _ hline => hline.nextLineRight_iff, eolnRight_iff h, lineVisited_iff h, eofRight h,
    seekeolnRight h, curCharRight h⟩

lemma sound_fopen (text : CStr) : (File.fopen text).Sound := fun h => by cases h

/-- The beginning of a text with two lines. -/
lemma onLine_two (st : Style) :
    OnLine st (.fopen ('a' :: (st.eol ++ ['b']))) ['b'] where
  sound := sound_fopen _
  position := ⟨[], ['a'], [], 'a' :: st.eol, List.forall_mem_nil _,
    fun c hc => by rw [List.mem_singleton.1 hc]; decide, rfl, rfl, List.cons_ne_nil _ _, rfl⟩
  next_text := ⟨[], ['b'], List.forall_mem_nil _,
    fun c hc => by rw [List.mem_singleton.1 hc]; decide, rfl⟩
  next_ne := List.cons_ne_nil _ _

/-- The second line of a text whose lines end with a newline. -/
theorem navigation_lf : NextLineRight (.fopen "a\nb".toList) ['b'] :=
  ((navigation_iff (sound_fopen _)).1 .lf ['b'] (onLine_two .lf)).2 (.inl rfl)

/-- The next line is not found in a text with the other ends of lines, `testlib_eoln` uses up the
first character of a text, and a loop with it does not visit the first line. -/
theorem navigation_wrong :
    (OnLine .crlf (.fopen "a\r\nb".toList) ['b'] ∧
      ¬NextLineRight (.fopen "a\r\nb".toList) ['b']) ∧
    (OnLine .cr (.fopen "a\rb".toList) ['b'] ∧ ¬NextLineRight (.fopen "a\rb".toList) ['b']) ∧
    ¬EolnRight (.fopen "a\nb".toList) ∧ ¬LineVisited (.fopen "a\nb".toList) := by
  have hcrlf : OnLine .crlf (.fopen "a\r\nb".toList) ['b'] := onLine_two .crlf
  have hcr : OnLine .cr (.fopen "a\rb".toList) ['b'] := onLine_two .cr
  refine ⟨⟨hcrlf, ?_⟩, ⟨hcr, ?_⟩, ?_, ?_⟩
  · rw [hcrlf.nextLineRight_iff]
    simp [File.fopen]
  · rw [hcr.nextLineRight_iff]
    simp
  · rw [eolnRight_iff (sound_fopen _)]
    simp [File.fopen, charBefore, isSpace]
  · rw [lineVisited_iff (sound_fopen _)]
    simp [File.fopen, endsLine, inLine]

end WebTester.TestLib
