import WebTester.CmdParser
import WebTester.HiveBytes

/-!
# The bytes that the command parser reads

`cmd_parser_iterator` with its reads, on the bytes from a pointer to the NUL that ends the line,
with this NUL; behind it nothing may be read. `CmdParser` has the same line without the NUL.
-/
namespace WebTester.Cmd.Bytes
open CString
open Hive (nul)
open Hive.Bytes (place)

/-! ## The loops -/

/-- The loop over what stands before an argument: no pointer at the NUL. -/
def skipLoop : CStr → Option (Option CStr)
  | [] => none
  | c :: rest =>
    if isGap c then if c = nul then some none else skipLoop rest
    else some (some (c :: rest))

/-- A loop that copies an argument, and the pointer behind it. The byte after a backslash is copied
whatever it is. -/
def copyLoop (stop : Char → Bool) : CStr → Option (CStr × CStr)
  | [] => none
  | c :: rest =>
    if stop c then some ([], c :: rest)
    else if c = '\\' then
      match rest with
      | [] => none
      | d :: rest => (copyLoop stop rest).map fun t => (unescape d :: t.1, t.2)
    else (copyLoop stop rest).map fun t => (c :: t.1, t.2)

/-- What ends an argument in quotes. -/
def endsQuoted (c : Char) : Bool := c = nul || c = '"'

/-- An argument after its opening quote; the byte that ends it is passed unseen. -/
def quotedLoop (self : CStr) : Option (CStr × CStr) :=
  (copyLoop endsQuoted self).map fun t => (t.1, t.2.tail)

def wordLoop : CStr → Option (CStr × CStr) := copyLoop isGap

/-- `cmd_parser_iterator`: `NULL`, or an argument and the pointer behind it. There is no result when
a byte behind the NUL is read. -/
def parserIterator (self : CStr) : Option (Option (CStr × CStr)) := do
  match ← skipLoop self with
  | none => some none
  | some self =>
    let t ← if self.head? = some '"' then quotedLoop self.tail else wordLoop self
    some (if t.1 = [] then none else some (t.1.takeWhile (· ≠ nul), t.2))

/-- The pointers that `cmd_parse_buf` calls the iterator with. -/
inductive Called (buf : CStr) : CStr → Prop
  | first : Called buf buf
  | next {self text rest : CStr} (h : Called buf self)
      (hit : parserIterator self = some (some (text, rest))) : Called buf rest

/-- No call reads behind the NUL. -/
def InBounds (buf : CStr) : Prop := ∀ self, Called buf self → (parserIterator self).isSome

/-! ## The calls of a line -/

lemma Called.trans {a b c : CStr} (hab : Called a b) (hbc : Called b c) : Called a c := by
  induction hbc with
  | first => exact hab
  | next _ hit ih => exact .next ih hit

lemma inBounds_none {buf : CStr} (h : parserIterator buf = some none) : InBounds buf := by
  intro self hself
  have heq : self = buf := by
    induction hself with
    | first => rfl
    | next _ hit ih =>
      rw [ih, h] at hit
      cases hit
  rw [heq, h]
  rfl

lemma inBounds_some {buf text rest : CStr} (h : parserIterator buf = some (some (text, rest))) :
    InBounds buf ↔ InBounds rest := by
  constructor
  · intro hbuf self hself
    exact hbuf self ((Called.first.next h).trans hself)
  · intro hrest self hself
    have hcalled : self = buf ∨ Called rest self := by
      induction hself with
      | first => exact .inl rfl
      | next _ hit ih =>
        right
        rcases ih with rfl | ih
        · rw [h] at hit
          obtain ⟨-, rfl⟩ : text = _ ∧ rest = _ := by simpa using hit
          exact .first
        · exact ih.next hit
    rcases hcalled with rfl | hcalled
    · rw [h]
      rfl
    · exact hrest self hcalled

lemma not_inBounds {buf : CStr} (h : parserIterator buf = none) : ¬InBounds buf := by
  intro hbuf
  have hsome := hbuf buf .first
  rw [h] at hsome
  cases hsome

/-! ## Arguments by their characters -/

/-- Characters of an argument: what would end it stands behind a backslash. -/
inductive Chars (stop : Char → Bool) : CStr → Prop
  | nil : Chars stop []
  | plain {c : Char} {s : CStr} (hstop : stop c = false) (hslash : c ≠ '\\') (hs : Chars stop s) :
      Chars stop (c :: s)
  | escaped {d : Char} {s : CStr} (hs : Chars stop s) : Chars stop ('\\' :: d :: s)

section copy

variable {stop : Char → Bool} {c : Char} {b : CStr}

lemma copyLoop_stop (hslash : stop '\\' = false) (hb : Chars stop b) (hc : stop c = true)
    (rest : CStr) :
    ∃ text, copyLoop stop (b ++ c :: rest) = some (text, c :: rest) ∧ (text = [] ↔ b = []) := by
  induction hb with
  | nil => exact ⟨[], by rw [List.nil_append, copyLoop.eq_def]; simp [hc], by simp⟩
  | @plain e s hstop hne _ ih =>
    obtain ⟨text, htext, -⟩ := ih
    refine ⟨e :: text, ?_, by simp⟩
    rw [List.cons_append, copyLoop.eq_def]
    simp [hstop, hne, htext]
  | @escaped d s _ ih =>
    obtain ⟨text, htext, -⟩ := ih
    refine ⟨unescape d :: text, ?_, by simp⟩
    rw [List.cons_append, List.cons_append, copyLoop.eq_def]
    simp [hslash, htext]

/-- After a backslash in front of the NUL the loop goes on behind it. -/
lemma copyLoop_slash (hslash : stop '\\' = false) (hb : Chars stop b) :
    copyLoop stop (b ++ ['\\', c]) = none := by
  induction hb with
  | nil =>
    rw [List.nil_append, copyLoop.eq_def]
    simp [hslash, copyLoop]
  | @plain e s hstop hne _ ih =>
    rw [List.cons_append, copyLoop.eq_def]
    simp [hstop, hne, ih]
  | @escaped d s _ ih =>
    rw [List.cons_append, List.cons_append, copyLoop.eq_def]
    simp [hslash, ih]

/-- A text is taken up to what ends it, or as a whole, or up to a last backslash. -/
lemma chars_cases (stop : Char → Bool) (s : CStr) :
    (∃ b c rest, Chars stop b ∧ stop c = true ∧ s = b ++ c :: rest) ∨ Chars stop s ∨
      ∃ b, Chars stop b ∧ s = b ++ ['\\'] := by
  fun_induction copyLoop stop s with
  | case1 => exact .inr (.inl .nil)
  | case2 c rest hc => exact .inl ⟨[], c, rest, .nil, hc, rfl⟩
  | case3 hc => exact .inr (.inr ⟨[], .nil, rfl⟩)
  | case4 d rest _ ih =>
    obtain ⟨b, e, rest, hb, he, rfl⟩ | hs | ⟨b, hb, rfl⟩ := ih
    · exact .inl ⟨'\\' :: d :: b, e, rest, hb.escaped, he, rfl⟩
    · exact .inr (.inl hs.escaped)
    · exact .inr (.inr ⟨'\\' :: d :: b, hb.escaped, rfl⟩)
  | case5 c rest hc hne ih =>
    rw [Bool.not_eq_true] at hc
    obtain ⟨b, e, rest, hb, he, rfl⟩ | hs | ⟨b, hb, rfl⟩ := ih
    · exact .inl ⟨c :: b, e, rest, hb.plain hc hne, he, rfl⟩
    · exact .inr (.inl (hs.plain hc hne))
    · exact .inr (.inr ⟨c :: b, hb.plain hc hne, rfl⟩)

end copy

/-! ## Lines -/

/-- A line whose arguments have ends: a quote that is left open has nothing behind it, and no
argument ends with a lone backslash. An empty argument in quotes ends the line. -/
inductive Line : CStr → Prop
  | nil : Line []
  | gap {c : Char} {rest : CStr} (hc : isGap c = true) (hrest : Line rest) : Line (c :: rest)
  | word {c : Char} {s rest : CStr} (hc : c ≠ '"') (hs : Chars isGap (c :: s))
      (hgap : ∀ d ∈ rest.head?, isGap d = true) (hrest : Line rest) : Line (c :: s ++ rest)
  | quoted {s rest : CStr} (hs : Chars endsQuoted s) (hne : s ≠ []) (hrest : Line rest) :
      Line ('"' :: s ++ '"' :: rest)
  | empty (rest : CStr) : Line ('"' :: '"' :: rest)
  | unclosed : Line ['"']

lemma isGap_nul : isGap nul = true := by
  unfold isGap
  decide

lemma isGap_slash : isGap '\\' = false := by
  unfold isGap
  decide

lemma parserIterator_nul : parserIterator [nul] = some none := by
  simp [parserIterator, skipLoop, isGap_nul]

lemma parserIterator_gap {c : Char} (hc : isGap c = true) (hnul : c ≠ nul) (rest : CStr) :
    parserIterator (c :: rest) = parserIterator rest := by
  have hskip : skipLoop (c :: rest) = skipLoop rest := by rw [skipLoop, if_pos hc, if_neg hnul]
  rw [parserIterator, parserIterator, hskip]

lemma inBounds_gap {c : Char} (hc : isGap c = true) (hnul : c ≠ nul) (rest : CStr) :
    InBounds (c :: rest) ↔ InBounds rest := by
  have heq := parserIterator_gap hc hnul rest
  cases hit : parserIterator rest with
  | none =>
    rw [hit] at heq
    exact iff_of_false (not_inBounds heq) (not_inBounds hit)
  | some r =>
    rw [hit] at heq
    cases r with
    | none => exact iff_of_true (inBounds_none heq) (inBounds_none hit)
    | some t => rw [inBounds_some heq, inBounds_some hit]

lemma parserIterator_quote (rest : CStr) :
    parserIterator ('"' :: rest) = (quotedLoop rest).map fun t =>
      if t.1 = [] then none else some (t.1.takeWhile (· ≠ nul), t.2) := by
  have hskip : skipLoop ('"' :: rest) = some (some ('"' :: rest)) := by
    rw [skipLoop, isGap_quote, if_neg Bool.false_ne_true]
  rw [parserIterator, hskip]
  cases h : quotedLoop rest <;> simp [h]

lemma parserIterator_word {c : Char} (hc : isGap c = false) (hne : c ≠ '"') (rest : CStr) :
    parserIterator (c :: rest) = (wordLoop (c :: rest)).map fun t =>
      if t.1 = [] then none else some (t.1.takeWhile (· ≠ nul), t.2) := by
  have hskip : skipLoop (c :: rest) = some (some (c :: rest)) := by
    rw [skipLoop, hc, if_neg Bool.false_ne_true]
  rw [parserIterator, hskip]
  cases h : wordLoop (c :: rest) <;> simp [h, hne]

lemma not_inBounds_nil : ¬InBounds [] := not_inBounds (by simp [parserIterator, skipLoop])

lemma inBounds_nul : InBounds [nul] := inBounds_none parserIterator_nul

section argument

variable {b rest : CStr} {c d : Char}

/-- Nothing but an empty argument saves the byte behind the one that ends it from being read. -/
lemma inBounds_quoted (hb : Chars endsQuoted b) (hd : endsQuoted d = true) :
    InBounds ('"' :: (b ++ d :: rest)) ↔ b = [] ∨ InBounds rest := by
  obtain ⟨text, hcopy, hempty⟩ := copyLoop_stop (by decide) hb hd rest
  have hit := parserIterator_quote (b ++ d :: rest)
  rw [quotedLoop, hcopy, Option.map_some, Option.map_some, List.tail_cons] at hit
  by_cases ht : text = []
  · rw [if_pos ht] at hit
    exact iff_of_true (inBounds_none hit) (.inl (hempty.1 ht))
  · rw [if_neg ht] at hit
    have hne : b ≠ [] := fun h => ht (hempty.2 h)
    rw [inBounds_some hit, or_iff_right hne]

lemma not_inBounds_quoted_slash (hb : Chars endsQuoted b) :
    ¬InBounds ('"' :: (b ++ ['\\', c])) := by
  apply not_inBounds
  rw [parserIterator_quote, quotedLoop, copyLoop_slash (by decide) hb]
  rfl

lemma isGap_head (hb : Chars isGap (c :: b)) : isGap c = false := by
  cases hb with
  | plain hstop => exact hstop
  | escaped => exact isGap_slash

lemma inBounds_word (hc : c ≠ '"') (hb : Chars isGap (c :: b)) (hd : isGap d = true) :
    InBounds (c :: (b ++ d :: rest)) ↔ InBounds (d :: rest) := by
  obtain ⟨text, hcopy, hempty⟩ := copyLoop_stop isGap_slash hb hd rest
  have hit := parserIterator_word (isGap_head hb) hc (b ++ d :: rest)
  rw [List.cons_append] at hcopy
  have ht : text ≠ [] := fun h => List.cons_ne_nil c b (hempty.1 h)
  rw [wordLoop, hcopy, Option.map_some, if_neg ht] at hit
  exact inBounds_some hit

lemma not_inBounds_word_slash (hc : c ≠ '"') (hb : Chars isGap (c :: b)) :
    ¬InBounds (c :: (b ++ ['\\', d])) := by
  apply not_inBounds
  rw [parserIterator_word (isGap_head hb) hc, wordLoop, ← List.cons_append,
    copyLoop_slash isGap_slash hb]
  rfl

end argument

lemma Line.inBounds {line : CStr} (h : Line line) (hnul : nul ∉ line) :
    InBounds (line ++ [nul]) := by
  induction h with
  | nil => exact inBounds_nul
  | @gap c rest hc _ ih =>
    rw [List.mem_cons, not_or] at hnul
    rw [List.cons_append, inBounds_gap hc (Ne.symm hnul.1)]
    exact ih hnul.2
  | @word c s rest hc hs hgap _ ih =>
    have hrest := ih fun h => hnul (List.mem_append_right _ h)
    cases rest with
    | nil =>
      rw [List.append_nil, List.cons_append]
      exact (inBounds_word hc hs isGap_nul).2 hrest
    | cons d rest =>
      rw [List.append_assoc, List.cons_append, List.cons_append]
      exact (inBounds_word hc hs (hgap d rfl)).2 hrest
  | @quoted s rest hs _ _ ih =>
    have hrest := ih fun h => hnul (List.mem_append_right _ (List.mem_cons_of_mem _ h))
    rw [List.append_assoc, List.cons_append, List.cons_append]
    exact (inBounds_quoted hs (by decide)).2 (.inr hrest)
  | empty rest => exact (inBounds_quoted .nil (by decide)).2 (.inl rfl)
  | unclosed => exact (inBounds_quoted .nil (by decide)).2 (.inl rfl)

/-- A line that begins with a quote, if the shorter lines are settled. -/
lemma InBounds.line_quoted {line : CStr} (h : InBounds ('"' :: (line ++ [nul]))) (hnul : nul ∉ line)
    (ih : ∀ rest : CStr, rest.length ≤ line.length → nul ∉ rest → InBounds (rest ++ [nul]) →
      Line rest) : Line ('"' :: line) := by
  obtain ⟨b, d, rest, hb, hd, rfl⟩ | hb | ⟨b, hb, rfl⟩ := chars_cases endsQuoted line
  · rw [List.append_assoc, List.cons_append, inBounds_quoted hb hd] at h
    rw [List.mem_append, List.mem_cons, not_or, not_or] at hnul
    obtain ⟨-, hdnul, hrest⟩ := hnul
    obtain rfl : d = '"' := by simpa [endsQuoted, Ne.symm hdnul] using hd
    by_cases hempty : b = []
    · subst hempty
      exact .empty rest
    · have hle : rest.length ≤ (b ++ '"' :: rest).length := by
        rw [List.length_append, List.length_cons]
        omega
      exact .quoted hb hempty (ih rest hle hrest (h.resolve_left hempty))
  · rw [inBounds_quoted hb (by decide), or_iff_left not_inBounds_nil] at h
    subst h
    exact .unclosed
  · rw [List.append_assoc] at h
    exact absurd h (not_inBounds_quoted_slash hb)

/-- A line that begins with another character of an argument, if the shorter lines are settled. -/
lemma InBounds.line_word {c : Char} {line : CStr} (h : InBounds (c :: (line ++ [nul])))
    (hnul : nul ∉ line) (hc : c ≠ '"') (hgap : isGap c = false)
    (ih : ∀ rest : CStr, rest.length ≤ line.length → nul ∉ rest → InBounds (rest ++ [nul]) →
      Line rest) : Line (c :: line) := by
  obtain ⟨b, d, rest, hb, hd, heq⟩ | hb | ⟨b, hb, heq⟩ := chars_cases isGap (c :: line)
  · cases b with
    | nil =>
      obtain ⟨rfl, -⟩ := List.cons.inj heq
      rw [hgap] at hd
      cases hd
    | cons e b =>
      obtain ⟨rfl, rfl⟩ : c = e ∧ line = b ++ d :: rest := List.cons.inj heq
      rw [List.append_assoc, List.cons_append, inBounds_word hc hb hd] at h
      have hrest : nul ∉ d :: rest := fun h => hnul (List.mem_append_right _ h)
      have hle : (d :: rest).length ≤ (b ++ d :: rest).length := by
        rw [List.length_append]
        omega
      exact .word hc hb (by simpa using hd) (ih _ hle hrest h)
  · have hline := @Line.word c line [] hc hb (by simp) .nil
    rwa [List.append_nil] at hline
  · cases b with
    | nil =>
      obtain ⟨rfl, rfl⟩ : c = '\\' ∧ line = [] := List.cons.inj heq
      have hnone : parserIterator ['\\', nul] = none := by
        rw [parserIterator_word hgap hc, wordLoop]
        exact congrArg _ (copyLoop_slash isGap_slash .nil)
      exact absurd h (not_inBounds hnone)
    | cons e b =>
      obtain ⟨rfl, rfl⟩ : c = e ∧ line = b ++ ['\\'] := List.cons.inj heq
      rw [List.append_assoc] at h
      exact absurd h (not_inBounds_word_slash hc hb)

lemma InBounds.line {line : CStr} (h : InBounds (line ++ [nul])) (hnul : nul ∉ line) :
    Line line := by
  induction hlen : line.length using Nat.strong_induction_on generalizing line with
  | _ n ih =>
    cases line with
    | nil => exact .nil
    | cons c line =>
      obtain ⟨hc, hline⟩ : c ≠ nul ∧ nul ∉ line := by simpa [eq_comm] using hnul
      rw [List.length_cons] at hlen
      rw [List.cons_append] at h
      have hshorter : ∀ rest : CStr, rest.length ≤ line.length → nul ∉ rest →
          InBounds (rest ++ [nul]) → Line rest := by
        intro rest hle hrest hin
        exact ih rest.length (by omega) hin hrest rfl
      by_cases hgap : isGap c = true
      · rw [inBounds_gap hgap hc] at h
        exact .gap hgap (hshorter line le_rfl hline h)
      rw [Bool.not_eq_true] at hgap
      by_cases hquote : c = '"'
      · subst hquote
        exact h.line_quoted hline hshorter
      · exact h.line_word hline hquote hgap hshorter

/-- No byte behind the NUL is read if and only if the arguments of the line have ends. -/
theorem line_inBounds_iff (line : CStr) (hnul : nul ∉ line) :
    InBounds (line ++ [nul]) ↔ Line line :=
  ⟨fun h => h.line hnul, fun h => h.inBounds hnul⟩

theorem line_inBounds_iff_arguments :
    InBounds (['a', '\\', ' ', ' ', '"', 'b', '"', '"', '"', '"'] ++ [nul]) := by
  apply (line_inBounds_iff ['a', '\\', ' ', ' ', '"', 'b', '"', '"', '"', '"'] (by decide)).2
  have hword : Chars isGap ['a', '\\', ' '] := by
    refine .plain ?_ (by decide) (.escaped .nil)
    unfold isGap
    decide
  have hrest : Line ['"', 'b', '"', '"', '"', '"'] :=
    @Line.quoted ['b'] ['"', '"', '"'] (.plain (by decide) (by decide) .nil) (by decide) (.empty _)
  exact @Line.word 'a' ['\\', ' '] [' ', '"', 'b', '"', '"', '"', '"'] (by decide) hword
    (by simp [isGap_space]) (.gap isGap_space hrest)

theorem open_quote_passes_nul :
    ¬InBounds (['"', 'a'] ++ [nul]) ∧ ¬InBounds (['a', '\\'] ++ [nul]) := by
  have hbody : Chars endsQuoted ['a'] := .plain (by decide) (by decide) .nil
  have hgap : isGap 'a' = false := by
    unfold isGap
    decide
  constructor
  · rw [List.cons_append, inBounds_quoted hbody (by decide)]
    exact not_or.2 ⟨List.cons_ne_nil _ _, not_inBounds_nil⟩
  · exact @not_inBounds_word_slash [] 'a' nul (by decide) (.plain hgap (by decide) .nil)

/-! ## The line without the NUL -/

lemma skipLoop_append {line : CStr} (hnul : nul ∉ line) :
    skipLoop (line ++ [nul]) = some ((skip line).map (· ++ [nul])) := by
  induction line with
  | nil => simp [skipLoop, skip, isGap_nul]
  | cons c line ih =>
    obtain ⟨hc, hline⟩ : c ≠ nul ∧ nul ∉ line := by simpa [eq_comm] using hnul
    rw [List.cons_append, skipLoop, skip, if_neg hc]
    split_ifs
    · exact ih hline
    · rfl

lemma copyLoop_length {stop : Char → Bool} {s : CStr} {t : CStr × CStr}
    (h : copyLoop stop s = some t) : t.1.length < s.length := by
  fun_induction copyLoop stop s generalizing t with
  | case1 => cases h
  | case2 c rest hc =>
    rw [← Option.some.inj h]
    exact Nat.succ_pos _
  | case3 => cases h
  | case4 d rest _ ih =>
    obtain ⟨t, ht, rfl⟩ := Option.map_eq_some_iff.1 h
    have := ih ht
    simp only [List.length_cons]
    omega
  | case5 c rest _ _ ih =>
    obtain ⟨t, ht, rfl⟩ := Option.map_eq_some_iff.1 h
    have := ih ht
    simp only [List.length_cons]
    omega

lemma takeQuoted_eq {line : CStr} (hnul : nul ∉ line) :
    takeQuoted line = (quotedLoop (line ++ [nul])).map fun t => (t.1, place t.2) := by
  unfold quotedLoop
  fun_induction takeQuoted line with
  | case1 => rfl
  | case2 c line hend =>
    have hstop : endsQuoted c = true := by simpa [endsQuoted, or_comm] using hend
    rw [List.cons_append, copyLoop.eq_def]
    simp [hstop, place]
  | case3 => rfl
  | case4 d line _ ih =>
    have hline : nul ∉ line := fun h => hnul (by simp [h])
    rw [List.cons_append, List.cons_append, copyLoop.eq_def, ih hline]
    simp [show endsQuoted '\\' = false from rfl, Function.comp_def]
  | case5 c line hend hslash ih =>
    have hline : nul ∉ line := fun h => hnul (by simp [h])
    have hstop : endsQuoted c = false := by simpa [endsQuoted, or_comm] using hend
    rw [List.cons_append, copyLoop.eq_def, ih hline]
    simp [hstop, hslash, Function.comp_def]

lemma takeWord_eq {line : CStr} (hnul : nul ∉ line) :
    takeWord line = (wordLoop (line ++ [nul])).map fun t => (t.1, place t.2) := by
  unfold wordLoop
  fun_induction takeWord line with
  | case1 =>
    rw [List.nil_append, copyLoop.eq_def]
    simp [isGap_nul, place]
  | case2 c line hend =>
    rw [List.cons_append, copyLoop.eq_def]
    simp [hend, place, List.dropLast_cons_of_ne_nil]
  | case3 =>
    rw [List.singleton_append, copyLoop.eq_def]
    simp [isGap_slash, copyLoop]
  | case4 d line hend ih =>
    have hline : nul ∉ line := fun h => hnul (by simp [h])
    rw [List.cons_append, List.cons_append, copyLoop.eq_def, ih hline]
    simp [isGap_slash, Function.comp_def]
  | case5 c line hend hslash ih =>
    have hline : nul ∉ line := fun h => hnul (by simp [h])
    rw [List.cons_append, copyLoop.eq_def, ih hline]
    simp [hend, hslash, Function.comp_def]

lemma skip_suffix {line found : CStr} (h : skip line = some found) : found <:+ line := by
  induction line with
  | nil => cases h
  | cons c line ih =>
    rw [skip] at h
    split_ifs at h
    · exact (ih h).trans (List.suffix_cons c line)
    · obtain rfl := Option.some.inj h
      exact List.suffix_rfl

lemma skip_ne_nil (line : CStr) : skip line ≠ some [] := by
  induction line with
  | nil => simp [skip]
  | cons c line ih =>
    rw [skip]
    split_ifs
    · simp
    · exact ih
    · simp

/-- A call as it is seen without the NUL. -/
def scan : Option (Option (CStr × CStr)) → Scan
  | none => .fault
  | some none => .finished
  | some (some (text, rest)) => .token text (place rest)

/-- A line that is shorter than the buffer for an argument. -/
theorem scan_parserIterator {line : CStr} (hnul : nul ∉ line) (hlength : line.length < tokenSize) :
    scan (parserIterator (line ++ [nul])) = Cmd.parserIterator (some line) := by
  rw [parserIterator, skipLoop_append hnul, Cmd.parserIterator]
  cases hskip : skip line with
  | none => rfl
  | some found =>
    have hsuffix := skip_suffix hskip
    have hfound : nul ∉ found := fun h => hnul (hsuffix.mem h)
    cases found with
    | nil => exact absurd hskip (skip_ne_nil line)
    | cons c rest =>
      have hrest : nul ∉ rest := fun h => hfound (List.mem_cons_of_mem _ h)
      have hlen := hsuffix.length_le
      rw [List.length_cons] at hlen
      simp only [Option.map_some, Option.bind_eq_bind, Option.bind_some, List.cons_append,
        List.head?_cons, List.tail_cons, Option.some.injEq]
      split_ifs with hquote
      · rw [takeQuoted_eq hrest]
        cases hloop : quotedLoop (rest ++ [nul]) with
        | none => rfl
        | some t =>
          obtain ⟨t', ht', rfl⟩ := Option.map_eq_some_iff.1 hloop
          have hlt := copyLoop_length ht'
          rw [List.length_append, List.length_singleton] at hlt
          have hfit : t'.1.length < tokenSize := by omega
          simp only [Option.bind_some, Option.map_some, finish, if_pos hfit]
          split_ifs <;> rfl
      · rw [takeWord_eq hfound, List.cons_append]
        cases hloop : wordLoop (c :: (rest ++ [nul])) with
        | none => rfl
        | some t =>
          have hlt := copyLoop_length hloop
          rw [List.length_cons, List.length_append, List.length_singleton] at hlt
          have hfit : t.1.length < tokenSize := by omega
          simp only [Option.bind_some, Option.map_some, finish, if_pos hfit]
          split_ifs <;> rfl

end WebTester.Cmd.Bytes
