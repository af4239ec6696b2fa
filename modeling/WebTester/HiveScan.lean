import WebTester.CString

/-!
# Tokens of a configuration

`hive_parser_iteration` passes over blanks and comments, takes one token into a buffer of 1024
bytes and gives the place after it. The data end with a NUL that is not written here; a NUL may
also stand in a file. A quoted text takes the NUL that ends it, after the last one nothing can be
read any more.
-/
namespace WebTester.Hive
open CString

def nul : Char := '\x00'

/-- Blanks: `char` is signed, and so is the comparison with a space. -/
def isBlank (c : Char) : Bool := schar c ≤ 32

/-- How much a character adds to the line number. -/
def newline (c : Char) : ℕ := if c = '\n' then 1 else 0

/-- What is passed over between tokens. `star` and `slash` are the second characters of the
brackets of a comment, `comment` counts the brackets that are open. -/
inductive Gap
  | blank
  | lineComment
  | star
  | comment (interior : ℕ)
  | slash
  deriving DecidableEq, Repr

/-- The main loop up to a token: the lines passed, and the data from the token on. -/
def skip : Gap → CStr → ℕ × Option CStr
  | _, [] => (0, none)
  | gap, c :: rest =>
    let pass (lines : ℕ) (s : ℕ × Option CStr) : ℕ × Option CStr := (lines + s.1, s.2)
    if c = nul then (0, none)
    else match gap with
      | .blank =>
        if isBlank c then pass (newline c) (skip .blank rest)
        else if c = '/' ∧ rest.head? = some '/' then skip .lineComment rest
        else if c = '/' ∧ rest.head? = some '*' then skip .star rest
        else (0, some (c :: rest))
      | .lineComment =>
        if c = '\n' then pass 1 (skip .blank rest) else skip .lineComment rest
      | .star => skip (.comment 1) rest
      | .comment interior =>
        if c = '/' ∧ rest.head? = some '*' then skip (.comment (interior + 1)) rest
        else if c = '*' ∧ rest.head? = some '/' then
          if interior = 1 then skip .slash rest else skip (.comment (interior - 1)) rest
        else pass (newline c) (skip (.comment interior) rest)
      | .slash => skip .blank rest

/-- An array after its opening bracket: whether it is closed, what is written into the buffer, the
lines, and the data that are left. -/
structure Taken where
  closed : Bool
  text : CStr
  lines : ℕ
  rest : CStr
  deriving DecidableEq, Repr

/-- The brackets of an array that are open after a character. -/
def bracket (c : Char) (interior : ℕ) : ℕ :=
  if c = '[' then interior + 1 else if c = ']' then interior - 1 else interior

def takeArray : ℕ → CStr → Taken
  | _, [] => ⟨false, [], 0, []⟩
  | interior, c :: rest =>
    if c = nul then ⟨false, [], 0, c :: rest⟩
    else if bracket c interior = 0 then ⟨true, [], newline c, rest⟩
    else
      let t := takeArray (bracket c interior) rest
      { t with text := c :: t.text, lines := newline c + t.lines }

def unescape (c : Char) : Char :=
  if c = 't' then '\t' else if c = 'n' then '\n' else c

/-- A quoted text after its opening quote: what is written, the lines, and the data after it
unless these are past the last NUL. After a backslash at the end of the data nothing can be
read. -/
def takeQuoted : CStr → Option (CStr × ℕ × Option CStr)
  | [] => some ([], 0, none)
  | c :: rest =>
    if c = '"' ∨ c = nul then some ([], 0, some rest)
    else if c = '\\' then
      match rest with
      | [] => none
      | d :: rest => (takeQuoted rest).map fun t => (unescape d :: t.1, t.2)
    else (takeQuoted rest).map fun t => (c :: t.1, newline c + t.2.1, t.2.2)

/-- A word without quotes. -/
def takeWord : CStr → CStr × CStr
  | [] => ([], [])
  | c :: rest =>
    if isBlank c ∨ c = '{' ∨ c = '}' ∨ c = '/' ∧ (rest.head? = some '*' ∨ rest.head? = some '/')
    then ([], c :: rest)
    else
      let t := takeWord rest
      (c :: t.1, t.2)

/-- A token with the flags `HPF_STRING` and `HPF_ARRAY`. -/
structure Token where
  text : CStr
  string : Bool
  array : Bool
  deriving DecidableEq, Repr

/-- How `hive_parser_iteration` ends: with `NULL`, with a token and the data after it unless
these are past the last NUL, with the error "Unexpected end of file" and a part of an array without
a NUL behind it, or outside of its buffers. -/
inductive Scan
  | finished (lines : ℕ)
  | token (t : Token) (lines : ℕ) (rest : Option CStr)
  | unended (text : CStr) (lines : ℕ)
  | fault
  deriving DecidableEq, Repr

/-- The size of the buffer for a token. -/
def tokenSize : ℕ := 1024

/-- The token at the place that `skip` has found. -/
def takeToken (lines : ℕ) : CStr → Scan
  | [] => .finished lines
  | c :: rest =>
    if c = '[' then
      let t := takeArray 1 rest
      if t.closed then
        if t.text.length < tokenSize then
          .token ⟨t.text, false, true⟩ (lines + t.lines) (some t.rest)
        else .fault
      else if t.text.length ≤ tokenSize then .unended t.text (lines + t.lines)
      else .fault
    else if c = '"' then
      match takeQuoted rest with
      | none => .fault
      | some t =>
        if t.1.length < tokenSize then
          .token ⟨t.1.takeWhile (· ≠ nul), true, false⟩ (lines + t.2.1) t.2.2
        else .fault
    else if c = '{' ∨ c = '}' then .token ⟨[c], false, false⟩ lines (some rest)
    else
      let t := takeWord (c :: rest)
      if t.1.length < tokenSize then .token ⟨t.1, false, false⟩ lines (some t.2) else .fault

def parserIteration (data : CStr) : Scan :=
  match skip .blank data with
  | (lines, none) => .finished lines
  | (lines, some data) => takeToken lines data

/-- The next token; past the last NUL there is none. -/
def scan : Option CStr → Scan
  | none => .fault
  | some data => parserIteration data

/-! ## Every token takes a part of the data -/

/-- Where a token can begin: not at a blank, nor at a comment. -/
def Begins (data : CStr) : Prop :=
  ∃ c rest, data = c :: rest ∧ isBlank c = false ∧
    ¬(c = '/' ∧ (rest.head? = some '*' ∨ rest.head? = some '/'))

lemma skip_spec {gap : Gap} {data rest : CStr} (h : (skip gap data).2 = some rest) :
    rest.length ≤ data.length ∧ Begins rest := by
  induction data generalizing gap with
  | nil => simp [skip] at h
  | cons c data ih =>
    have hih : ∀ gap, (skip gap data).2 = some rest →
        rest.length ≤ (c :: data).length ∧ Begins rest :=
      fun gap hgap => ⟨Nat.le_succ_of_le (ih hgap).1, (ih hgap).2⟩
    by_cases hnul : c = nul
    · simp [skip, hnul] at h
    cases gap with
    | blank =>
      simp only [skip, if_neg hnul] at h
      split_ifs at h with hblank hline hstar
      · exact hih _ h
      · exact hih _ h
      · exact hih _ h
      · obtain rfl := Option.some.inj h
        refine ⟨le_rfl, c, data, rfl, by simpa using hblank, ?_⟩
        rintro ⟨hc, hhead | hhead⟩
        · exact hstar ⟨hc, hhead⟩
        · exact hline ⟨hc, hhead⟩
    | lineComment =>
      simp only [skip, if_neg hnul] at h
      split_ifs at h <;> exact hih _ h
    | comment interior =>
      simp only [skip, if_neg hnul] at h
      split_ifs at h <;> exact hih _ h
    | star | slash =>
      simp only [skip, if_neg hnul] at h
      exact hih _ h

lemma takeArray_length (interior : ℕ) (data : CStr) :
    (takeArray interior data).rest.length ≤ data.length := by
  induction data generalizing interior with
  | nil => simp [takeArray]
  | cons c data ih =>
    rw [takeArray]
    split_ifs
    · exact le_rfl
    · simp
    · exact Nat.le_succ_of_le (ih _)

lemma takeQuoted_length {data text rest : CStr} {lines : ℕ}
    (h : takeQuoted data = some (text, lines, some rest)) : rest.length ≤ data.length := by
  fun_induction takeQuoted data generalizing text lines with
  | case1 => simp at h
  | case2 c data hend =>
    simp only [Option.some.injEq, Prod.mk.injEq] at h
    simp [h.2.2]
  | case3 => simp at h
  | case4 hend d data ih =>
    obtain ⟨⟨text', lines', rest'⟩, ht, heq⟩ := Option.map_eq_some_iff.1 h
    obtain ⟨-, -, rfl⟩ : _ ∧ _ ∧ rest' = some rest := by simpa using heq
    exact Nat.le_succ_of_le (Nat.le_succ_of_le (ih ht))
  | case5 c data hend hslash ih =>
    obtain ⟨⟨text', lines', rest'⟩, ht, heq⟩ := Option.map_eq_some_iff.1 h
    obtain ⟨-, -, rfl⟩ : _ ∧ _ ∧ rest' = some rest := by simpa using heq
    exact Nat.le_succ_of_le (ih ht)

lemma takeWord_length (data : CStr) : (takeWord data).2.length ≤ data.length := by
  induction data with
  | nil => simp [takeWord]
  | cons c data ih =>
    rw [takeWord]
    split_ifs
    · exact le_rfl
    · exact Nat.le_succ_of_le ih

lemma takeToken_length {lines lines' : ℕ} {data rest : CStr} {t : Token} (hb : Begins data)
    (h : takeToken lines data = .token t lines' (some rest)) : rest.length < data.length := by
  obtain ⟨c, data, rfl, hblank, hcomment⟩ := hb
  simp only [takeToken] at h
  rw [List.length_cons, Nat.lt_succ_iff]
  split_ifs at h with harray hclosed hfit hfit hquote hbrace hfit
  · obtain ⟨-, -, hrest⟩ := Scan.token.inj h
    obtain rfl := Option.some.inj hrest
    exact takeArray_length 1 data
  · cases hq : takeQuoted data with
    | none => simp [hq] at h
    | some q =>
      obtain ⟨text, l, r⟩ := q
      rw [hq] at h
      dsimp only at h
      split_ifs at h
      obtain ⟨-, -, rfl⟩ := Scan.token.inj h
      exact takeQuoted_length hq
  · obtain ⟨-, -, hrest⟩ := Scan.token.inj h
    obtain rfl := Option.some.inj hrest
    exact le_rfl
  · obtain ⟨-, -, hrest⟩ := Scan.token.inj h
    obtain rfl := Option.some.inj hrest
    have hstop : ¬(isBlank c ∨ c = '{' ∨ c = '}' ∨
        c = '/' ∧ (data.head? = some '*' ∨ data.head? = some '/')) := by
      rintro (hc | hc | hc | hc)
      · rw [hblank] at hc
        cases hc
      · exact hbrace (.inl hc)
      · exact hbrace (.inr hc)
      · exact hcomment hc
    rw [takeWord, if_neg hstop]
    exact takeWord_length data

/-- Every token takes at least one character. -/
theorem parserIteration_length {data rest : CStr} {t : Token} {lines : ℕ}
    (h : parserIteration data = .token t lines (some rest)) : rest.length < data.length := by
  unfold parserIteration at h
  cases hskip : skip .blank data with
  | mk l d =>
    rw [hskip] at h
    cases d with
    | none => cases h
    | some d =>
      have hd : (skip .blank data).2 = some d := by rw [hskip]
      obtain ⟨hle, hb⟩ := skip_spec hd
      exact (takeToken_length hb h).trans_le hle

/-! ## Quoted texts and braces -/

/-- A character between quotes. -/
def escape (c : Char) : CStr := if c = '"' ∨ c = '\\' then ['\\', c] else [c]

/-- A text between quotes, with backslashes before quotes and backslashes. -/
def quote (s : CStr) : CStr := '"' :: s.flatMap escape ++ ['"']

lemma takeQuoted_escape {s : CStr} (hs : nul ∉ s) (rest : CStr) :
    ∃ lines, takeQuoted (s.flatMap escape ++ '"' :: rest) = some (s, lines, some rest) := by
  induction s with
  | nil =>
    refine ⟨0, ?_⟩
    rw [List.flatMap_nil, List.nil_append, takeQuoted.eq_def]
    simp only [true_or, if_true]
  | cons c s ih =>
    obtain ⟨hc, hs⟩ : c ≠ nul ∧ nul ∉ s := by simpa [eq_comm] using hs
    obtain ⟨lines, hlines⟩ := ih hs
    rw [List.flatMap_cons, List.append_assoc, escape]
    split_ifs with hesc
    · refine ⟨lines, ?_⟩
      have hun : unescape c = c := by
        rcases hesc with rfl | rfl
        · rfl
        · rfl
      have hslash : ¬('\\' = '"' ∨ '\\' = nul) := by decide
      simp only [List.cons_append, List.nil_append]
      rw [takeQuoted.eq_def]
      simp only [if_neg hslash, if_true, hlines, Option.map_some, hun]
    · refine ⟨newline c + lines, ?_⟩
      rw [not_or] at hesc
      simp only [List.cons_append, List.nil_append]
      rw [takeQuoted.eq_def]
      simp only [hesc, hc, or_self, if_false, hlines, Option.map_some]

lemma isBlank_of_isSpace {c : Char} (h : isSpace c) : isBlank c ∧ c ≠ nul := by
  have hc : c.toNat = 32 ∨ 9 ≤ c.toNat ∧ c.toNat ≤ 13 := by
    simp only [isSpace, Bool.or_eq_true, beq_iff_eq, Bool.and_eq_true, decide_eq_true_eq,
      Char.le_def, UInt32.le_iff_toNat_le] at h
    rcases h with rfl | h
    · exact .inl rfl
    · exact .inr h
  clear h
  have hblank : schar c ≤ 32 := by
    have hmod : (c.toNat : ℤ).bmod 256 = c.toNat := Int.bmod_eq_of_le (by omega) (by omega)
    unfold schar
    omega
  refine ⟨decide_eq_true hblank, ?_⟩
  intro heq
  have hzero : c.toNat = 0 := by rw [heq]; rfl
  omega

lemma skip_space {w : CStr} (hw : ∀ c ∈ w, isSpace c) (data : CStr) :
    ∃ lines, skip .blank (w ++ data) = (lines + (skip .blank data).1, (skip .blank data).2) := by
  induction w with
  | nil => exact ⟨0, by simp⟩
  | cons c w ih =>
    obtain ⟨lines, hlines⟩ := ih fun d hd => hw d (List.mem_cons_of_mem c hd)
    obtain ⟨hblank, hnul⟩ := isBlank_of_isSpace (hw c List.mem_cons_self)
    refine ⟨newline c + lines, ?_⟩
    rw [List.cons_append, skip.eq_def]
    simp only [if_neg hnul, if_pos hblank, hlines, Nat.add_assoc]

lemma parserIteration_end {w : CStr} (hw : ∀ c ∈ w, isSpace c) :
    ∃ lines, parserIteration w = .finished lines := by
  obtain ⟨lines, hskip⟩ := skip_space hw []
  rw [List.append_nil] at hskip
  exact ⟨_, by rw [parserIteration, hskip, skip]⟩

lemma parserIteration_space {w : CStr} (hw : ∀ c ∈ w, isSpace c) {c : Char} (rest : CStr)
    (hblank : isBlank c = false) (hslash : c ≠ '/') :
    ∃ lines, parserIteration (w ++ c :: rest) = takeToken lines (c :: rest) := by
  obtain ⟨lines, hskip⟩ := skip_space hw (c :: rest)
  have hnul : c ≠ nul := by
    rintro rfl
    exact absurd hblank (by decide)
  have hc : skip .blank (c :: rest) = (0, some (c :: rest)) := by
    rw [skip.eq_def]
    simp [hnul, hblank, hslash]
  rw [hc] at hskip
  exact ⟨_, by rw [parserIteration, hskip]⟩

lemma parserIteration_quote {w s : CStr} (hw : ∀ c ∈ w, isSpace c) (hs : nul ∉ s)
    (hfit : s.length < tokenSize) (rest : CStr) :
    ∃ lines, parserIteration (w ++ quote s ++ rest) =
      .token ⟨s, true, false⟩ lines (some rest) := by
  obtain ⟨lines, hit⟩ := parserIteration_space hw (s.flatMap escape ++ '"' :: rest)
    (c := '"') (by decide) (by decide)
  obtain ⟨lines', hquoted⟩ := takeQuoted_escape hs rest
  have hne : ∀ c ∈ s, c ≠ nul := fun c hc heq => hs (heq ▸ hc)
  have happ : w ++ quote s ++ rest = w ++ '"' :: (s.flatMap escape ++ '"' :: rest) := by
    simp [quote]
  refine ⟨lines + lines', ?_⟩
  rw [happ, hit, takeToken]
  simpa [hquoted, hfit] using hne

lemma parserIteration_brace {w : CStr} (hw : ∀ c ∈ w, isSpace c) {c : Char}
    (hc : c = '{' ∨ c = '}') (rest : CStr) :
    ∃ lines, parserIteration (w ++ [c] ++ rest) =
      .token ⟨[c], false, false⟩ lines (some rest) := by
  have hblank : isBlank c = false ∧ c ≠ '/' ∧ c ≠ '[' ∧ c ≠ '"' := by
    rcases hc with rfl | rfl
    · decide
    · decide
  obtain ⟨hblank, hslash, harray, hquote⟩ := hblank
  obtain ⟨lines, hit⟩ := parserIteration_space hw rest hblank hslash
  refine ⟨lines, ?_⟩
  rw [List.append_assoc, List.singleton_append, hit, takeToken]
  simp only [if_neg harray, if_neg hquote, if_pos hc]

end WebTester.Hive
