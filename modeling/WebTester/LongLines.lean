import WebTester.CheckerLines

/-!
# Long lines

`CTestlibFile::ReadString` reads a line in pieces. Each call of `testlib_read_string` fills the
buffer and uses up the character that it stops at, which is one of the line where the line goes
on. The tests for the end of the line look at that character.
-/
namespace WebTester.TestLib
open CString

/-- `TESTLIB_MAX_STRLEN`. -/
def testlibMaxStrlen : ℕ := 65536

/-- The string in a buffer. -/
def upToNul (buf : CStr) : CStr := buf.takeWhile (· ≠ '\x00')

/-- The loop of `CTestlibFile::ReadString`. -/
def moreStrings : ℕ → CStr → File → Option (Except CStr (CStr × File))
  | 0, _, _ => none
  | fuel + 1, a, f =>
    if (eof f).1 then some (.ok (a, (eof f).2))
    else if (eoln (eof f).2).1 then some (.ok (a, (eoln (eof f).2).2))
    else match readString testlibMaxStrlen (eoln (eof f).2).2 with
      | .error desc => some (.error desc)
      | .ok (buf, g) => moreStrings fuel (a ++ upToNul buf) g

/-- `CTestlibFile::ReadString`. -/
def readWholeString (fuel : ℕ) (f : File) : Option (Except CStr (CStr × File)) :=
  match readString testlibMaxStrlen f with
  | .error desc => some (.error desc)
  | .ok (buf, g) => moreStrings fuel (upToNul buf) g

/-- The line is read without its end, and the stream is left before the next one. -/
def LongLineRight (f : File) : Prop :=
  ∃ fuel g, readWholeString fuel f = some (.ok (f.ahead.takeWhile inLine, g)) ∧
    g.ahead = skipEnd (f.ahead.dropWhile inLine)

variable {f g : File} {a buf : CStr} {c : Char} {fuel maxlen : ℕ}

/-! ## Where a piece ends -/

/-- A character is put back where it was, unless there was none. -/
lemma fgetc_goback (h : f.Sound) (hne : f.ahead ≠ []) : f.fgetc.2.goback = f := by
  obtain ⟨behind, ahead, eof⟩ := f
  cases ahead with
  | nil => exact absurd rfl hne
  | cons c ahead =>
    cases eof with
    | true => cases h rfl
    | false => rfl

/-- The end of the file was met, or the character before the position ends a line. -/
def AtEnd (f : File) : Prop := f.eof = true ∨ ∃ c, charBefore f = some c ∧ inLine c = false

lemma At.eof_of_nil {ch : Option Char} (h : At ch f []) : f.eof = true := by
  cases h with
  | atEnd heof hahead => exact heof

lemma At.atEnd_of_none {text : CStr} (h : At none f text) : AtEnd f := by
  cases h with
  | atEnd heof hahead => exact .inl heof

/-- What is left of a text behind some characters of its first line. -/
lemma drop_of_le {text : CStr} {n : ℕ} (hlen : n ≤ (text.takeWhile inLine).length) :
    text.drop n = (text.takeWhile inLine).drop n ++ text.dropWhile inLine := by
  have htext : text.takeWhile inLine ++ text.dropWhile inLine = text :=
    List.takeWhile_append_dropWhile
  calc text.drop n = (text.takeWhile inLine ++ text.dropWhile inLine).drop n := by rw [htext]
    _ = (text.takeWhile inLine).drop n ++ text.dropWhile inLine :=
      List.drop_append_of_le_length hlen

/-- The rest of the line. -/
lemma takeWhile_drop {text : CStr} {n : ℕ} (hlen : n ≤ (text.takeWhile inLine).length) :
    (text.drop n).takeWhile inLine = (text.takeWhile inLine).drop n := by
  have hline : ∀ c ∈ (text.takeWhile inLine).drop n, inLine c = true :=
    fun c hc => List.mem_takeWhile_imp (List.mem_of_mem_drop hc)
  rw [drop_of_le hlen]
  exact (takeWhile_append_stop hline fun c hc => eq_false_of_head?_dropWhile hc).1

lemma drop_line (text : CStr) :
    text.drop (text.takeWhile inLine).length = text.dropWhile inLine := by
  rw [drop_of_le le_rfl, List.drop_length, List.nil_append]

/-- The character that a piece of at most so many characters stops at. -/
lemma head?_drop_piece (text : CStr) (maxlen : ℕ) :
    let line := text.takeWhile inLine
    (line.length ≤ maxlen →
      endsLine (text.drop (line.take maxlen).length).head? = true) ∧
    (maxlen < line.length →
      ∃ c, (text.drop (line.take maxlen).length).head? = some c ∧ inLine c = true) := by
  intro line
  constructor
  · intro hlen
    rw [List.take_of_length_le hlen, drop_line, endsLine]
    cases hhead : (text.dropWhile inLine).head? with
    | none => rfl
    | some c => rw [Option.all_some, eq_false_of_head?_dropWhile hhead, Bool.not_false]
  · intro hlen
    rw [List.length_take, Nat.min_eq_left hlen.le, drop_of_le hlen.le,
      List.drop_eq_getElem_cons hlen]
    exact ⟨_, rfl, List.mem_takeWhile_imp (List.getElem_mem hlen)⟩

/-- A carriage return is passed, and a newline after it. -/
lemma atEnd_of_cr {text : CStr} (h : At (some '\r') f text) :
    AtEnd (if f.fgetc.1 = some '\n' then f.fgetc.2 else f.fgetc.2.goback) := by
  have hnext := h.next
  split
  · next hlf =>
    rw [hlf] at hnext
    exact .inr ⟨_, hnext.charBefore_eq, by decide⟩
  · by_cases hahead : f.ahead = []
    · rw [← h.ahead, hahead] at hnext
      have heof := hnext.eof_of_nil
      rw [File.goback, if_pos heof]
      exact .inl heof
    · rw [fgetc_goback h.sound hahead]
      exact .inr ⟨_, h.charBefore_eq, by decide⟩

/-- After a piece that ends with the line the stream is behind its end, and after another one it
is behind a character of the line. -/
lemma readString_ends (h : f.Sound) (hread : readString maxlen f = .ok (buf, g)) :
    ((f.ahead.takeWhile inLine).length ≤ maxlen → AtEnd g) ∧
    (maxlen < (f.ahead.takeWhile inLine).length →
      ∃ c, charBefore g = some c ∧ inLine c = true) := by
  obtain ⟨ch, f', hcollect, hat⟩ := @collectString_spec _ maxlen [] _ _ h.fgetc
  obtain ⟨hend, hmid⟩ := head?_drop_piece f.ahead maxlen
  rw [← hat.eq_head?] at hend hmid
  unfold readString at hread
  rw [Int.toNat_natCast, hcollect] at hread
  dsimp only at hread
  split at hread
  · cases hread
  constructor
  · intro hlen
    have hch := hend hlen
    split at hread
    · next hcr =>
      subst hcr
      cases hread
      exact atEnd_of_cr hat
    · cases hread
      cases ch with
      | none => exact hat.atEnd_of_none
      | some c => exact .inr ⟨c, hat.charBefore_eq, by simpa [endsLine] using hch⟩
  · intro hlen
    obtain ⟨c, rfl, hc⟩ := hmid hlen
    have hne : some c ≠ some '\r' := by
      intro heq
      obtain rfl := Option.some.inj heq
      cases hc
    rw [if_neg hne] at hread
    cases hread
    exact ⟨c, hat.charBefore_eq, hc⟩

lemma skipEnd_of_inLine (hc : inLine c = true) (text : CStr) : skipEnd (c :: text) = text := by
  unfold skipEnd
  split
  · next heq =>
    obtain ⟨rfl, -⟩ := List.cons_eq_cons.1 heq
    cases hc
  · next heq => exact (List.cons_eq_cons.1 heq).2.symm
  · next heq => cases heq

/-- A piece of a line that fits is the line, and one of a longer line leaves a character out. -/
lemma readString_piece (h : f.Sound) (hread : readString maxlen f = .ok (buf, g)) :
    ((f.ahead.takeWhile inLine).length ≤ maxlen →
      g.Sound ∧ buf = f.ahead.takeWhile inLine ∧ g.ahead = skipEnd (f.ahead.dropWhile inLine)) ∧
    (maxlen < (f.ahead.takeWhile inLine).length → g.Sound ∧ buf.length = maxlen ∧
      (g.ahead.takeWhile inLine).length = (f.ahead.takeWhile inLine).length - (maxlen + 1)) := by
  have hagrees := readString_agrees maxlen h
  obtain ⟨-, hmid⟩ := head?_drop_piece f.ahead maxlen
  have hne : f.ahead ≠ [] := by
    intro hnil
    rw [hread, line, if_pos hnil] at hagrees
    obtain ⟨desc, hdesc⟩ := hagrees
    cases hdesc
  rw [hread, line, if_neg hne, Int.toNat_natCast] at hagrees
  obtain ⟨g', hok, hsound, hahead⟩ := hagrees
  cases hok
  constructor
  · intro hlen
    rw [List.take_of_length_le hlen, drop_line] at hahead
    exact ⟨hsound, List.take_of_length_le hlen, hahead⟩
  · intro hlen
    obtain ⟨c, hhead, hc⟩ := hmid hlen
    refine ⟨hsound, by rw [List.length_take, Nat.min_eq_left hlen.le], ?_⟩
    rw [List.length_take, Nat.min_eq_left hlen.le] at hhead hahead
    obtain ⟨rest, hrest⟩ := List.head?_eq_some_iff.1 hhead
    have htail : rest = f.ahead.drop (maxlen + 1) := by
      rw [← List.drop_drop, hrest]
      rfl
    rw [hahead, hrest, skipEnd_of_inLine hc, htail, takeWhile_drop hlen, List.length_drop]

/-! ## The loop -/

/-- The test for the end of the file leaves the stream alone before that. -/
lemma eof_of_ne (h : f.Sound) (hne : f.ahead ≠ []) : eof f = (false, f) := by
  obtain ⟨c, rest, hcons⟩ := List.exists_cons_of_ne_nil hne
  have hhead := h.fgetc.eq_head?
  rw [hcons, List.head?_cons] at hhead
  rw [eof, fgetc_goback h hne, hhead]
  rfl

/-- The loop ends at the end of the file. -/
lemma moreStrings_of_nil (h : f.Sound) (hnil : f.ahead = []) (fuel : ℕ) (a : CStr) :
    moreStrings (fuel + 1) a f = some (.ok (a, (eof f).2)) := by
  rw [moreStrings, if_pos ((eofRight h).1.2 hnil)]

/-- Behind the end of a line the loop ends where it is. -/
lemma moreStrings_of_atEnd (h : f.Sound) (hend : AtEnd f) (fuel : ℕ) (a : CStr) :
    ∃ g, moreStrings (fuel + 1) a f = some (.ok (a, g)) ∧ g.ahead = f.ahead := by
  by_cases hnil : f.ahead = []
  · exact ⟨_, moreStrings_of_nil h hnil fuel a, (eofRight h).2⟩
  · obtain heof | ⟨c, hbefore, hc⟩ := hend
    · exact absurd (h heof) hnil
    · rw [moreStrings, eof_of_ne h hnil, eoln_of_behind hbefore, hc]
      exact ⟨f, rfl, rfl⟩

lemma length_upToNul_le (buf : CStr) : (upToNul buf).length ≤ buf.length :=
  (List.takeWhile_sublist _).length_le

/-- Within a line, at most the rest of it is added. -/
lemma moreStrings_length_le {r : CStr × File} (h : f.Sound) (hbefore : charBefore f = some c)
    (hc : inLine c = true) (hread : moreStrings fuel a f = some (.ok r)) :
    r.1.length ≤ a.length + (f.ahead.takeWhile inLine).length := by
  induction fuel generalizing f c a with
  | zero => cases hread
  | succ fuel ih =>
    by_cases hnil : f.ahead = []
    · rw [moreStrings_of_nil h hnil] at hread
      cases hread
      exact Nat.le_add_right _ _
    have heoln : eoln f = (false, f) := by
      rw [eoln_of_behind hbefore, hc]
      rfl
    rw [moreStrings, eof_of_ne h hnil, if_neg Bool.false_ne_true, heoln,
      if_neg Bool.false_ne_true] at hread
    dsimp only at hread
    split at hread
    · cases hread
    · next buf g hpiece =>
      obtain ⟨hshort, hlong⟩ := readString_piece h hpiece
      obtain ⟨hend, hmid⟩ := readString_ends h hpiece
      have hcut := length_upToNul_le buf
      by_cases hlen : (f.ahead.takeWhile inLine).length ≤ testlibMaxStrlen
      · obtain ⟨hsound, hbuf, -⟩ := hshort hlen
        cases fuel with
        | zero => cases hread
        | succ fuel =>
          obtain ⟨g', hstop, -⟩ := moreStrings_of_atEnd hsound (hend hlen) fuel (a ++ upToNul buf)
          rw [hstop] at hread
          cases hread
          rw [hbuf] at hcut
          rw [List.length_append, hbuf]
          omega
      · obtain ⟨hsound, hbuf, hrest⟩ := hlong (not_le.1 hlen)
        obtain ⟨d, hbefore', hd⟩ := hmid (not_le.1 hlen)
        have hle := ih hsound hbefore' hd hread
        rw [List.length_append, hrest] at hle
        omega

/-- There is a first piece, unless the stream is at its end. -/
lemma exists_piece (h : f.Sound) (hne : f.ahead ≠ []) (maxlen : ℕ) :
    ∃ buf g, readString maxlen f = .ok (buf, g) := by
  have hagrees := readString_agrees maxlen h
  rw [line, if_neg hne] at hagrees
  obtain ⟨g, hok, -⟩ := hagrees
  exact ⟨_, g, hok⟩

/-- A line that fits is read up to a NUL. -/
lemma readWholeString_short (h : f.Sound) (hne : f.ahead ≠ [])
    (hlen : (f.ahead.takeWhile inLine).length ≤ testlibMaxStrlen) (fuel : ℕ) :
    ∃ g, readWholeString (fuel + 1) f = some (.ok (upToNul (f.ahead.takeWhile inLine), g)) ∧
      g.ahead = skipEnd (f.ahead.dropWhile inLine) := by
  obtain ⟨buf, g, hpiece⟩ := exists_piece h hne testlibMaxStrlen
  obtain ⟨hsound, rfl, hahead⟩ := (readString_piece h hpiece).1 hlen
  have hend := (readString_ends h hpiece).1 hlen
  obtain ⟨g', hstop, hahead'⟩ := moreStrings_of_atEnd hsound hend fuel _
  rw [readWholeString, hpiece]
  exact ⟨g', hstop, hahead'.trans hahead⟩

/-- Of a longer line characters are left out. -/
lemma readWholeString_long {r : CStr × File} (h : f.Sound)
    (hlen : testlibMaxStrlen < (f.ahead.takeWhile inLine).length)
    (hread : readWholeString fuel f = some (.ok r)) :
    r.1.length < (f.ahead.takeWhile inLine).length := by
  have hne : f.ahead ≠ [] := by
    intro hnil
    rw [hnil] at hlen
    cases hlen
  obtain ⟨buf, g, hpiece⟩ := exists_piece h hne testlibMaxStrlen
  obtain ⟨hsound, hbuf, hrest⟩ := (readString_piece h hpiece).2 hlen
  obtain ⟨c, hbefore, hc⟩ := (readString_ends h hpiece).2 hlen
  rw [readWholeString, hpiece] at hread
  have hle := moreStrings_length_le hsound hbefore hc hread
  have hcut := length_upToNul_le buf
  omega

lemma upToNul_eq_iff (buf : CStr) : upToNul buf = buf ↔ '\x00' ∉ buf := by
  rw [upToNul, List.takeWhile_eq_self_iff]
  constructor
  · intro h hmem
    simpa using h _ hmem
  · intro h c hc
    simpa using ne_of_mem_of_not_mem hc h

lemma not_longLineRight (h : f.Sound)
    (hlen : testlibMaxStrlen < (f.ahead.takeWhile inLine).length) : ¬LongLineRight f := by
  rintro ⟨fuel, g, hread, -⟩
  exact lt_irrefl _ (readWholeString_long h hlen hread)

/-- A line is read as it is if and only if there is one, it is no longer than the buffer and it
has no NUL. -/
theorem longLineRight_iff {f : File} (h : f.Sound) : LongLineRight f ↔ f.ahead ≠ [] ∧
    (f.ahead.takeWhile inLine).length ≤ testlibMaxStrlen ∧
    '\x00' ∉ f.ahead.takeWhile inLine := by
  constructor
  · intro hright
    have hlen : (f.ahead.takeWhile inLine).length ≤ testlibMaxStrlen := by
      by_contra hlong
      exact not_longLineRight h (not_le.1 hlong) hright
    obtain ⟨fuel, g, hread, -⟩ := hright
    have hne : f.ahead ≠ [] := by
      intro hnil
      have hagrees := readString_agrees testlibMaxStrlen h
      rw [line, if_pos hnil] at hagrees
      obtain ⟨desc, hdesc⟩ := hagrees
      rw [readWholeString, hdesc] at hread
      cases hread
    refine ⟨hne, hlen, ?_⟩
    rw [← upToNul_eq_iff]
    cases fuel with
    | zero =>
      obtain ⟨buf, g', hpiece⟩ := exists_piece h hne testlibMaxStrlen
      rw [readWholeString, hpiece] at hread
      cases hread
    | succ fuel =>
      obtain ⟨g', hread', -⟩ := readWholeString_short h hne hlen fuel
      rw [hread'] at hread
      simp only [Option.some.injEq, Except.ok.injEq, Prod.mk.injEq] at hread
      exact hread.1
  · rintro ⟨hne, hlen, hnul⟩
    obtain ⟨g, hread, hahead⟩ := readWholeString_short h hne hlen 0
    rw [(upToNul_eq_iff _).2 hnul] at hread
    exact ⟨1, g, hread, hahead⟩

/-- A short line. -/
theorem longLineRight_short : LongLineRight (.fopen "ab\ncd".toList) :=
  (longLineRight_iff (sound_fopen _)).2 ⟨by decide, by decide, by decide⟩

/-- A line of one character more than the buffer has. -/
theorem longLineRight_wrong : ¬LongLineRight (.fopen (List.replicate 65537 'a')) := by
  have hline : (List.replicate 65537 'a').takeWhile inLine = List.replicate 65537 'a' :=
    List.takeWhile_eq_self_iff.2 fun c hc => by rw [(List.mem_replicate.1 hc).2]; decide
  apply not_longLineRight (sound_fopen _)
  show testlibMaxStrlen < ((List.replicate 65537 'a').takeWhile inLine).length
  rw [hline, List.length_replicate]
  decide

end WebTester.TestLib
