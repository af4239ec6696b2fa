import WebTester.HiveScan

/-!
# The bytes that the tokenizer reads

`hive_parser_iteration` with its reads. The data at a pointer are the bytes from there to the NUL
that ends the buffer, with this NUL; behind it nothing may be read. `HiveScan` has the same data
without the NUL.
-/
namespace WebTester.Hive.Bytes
open CString

/-! ## The loops -/

/-- `__data[0] == c && __data[1] == d`: the second byte is read if the first one is equal. -/
def both (c d : Char) : CStr → Option Bool
  | [] => none
  | a :: rest => if a = c then rest.head?.map (· == d) else some false

/-- The main loop up to a token: the lines passed, and the data from the token on. -/
def mainLoop : Gap → CStr → Option (ℕ × Option CStr)
  | _, [] => none
  | gap, c :: rest =>
    let pass (lines : ℕ) (s : Option (ℕ × Option CStr)) := s.map fun s => (lines + s.1, s.2)
    if c = nul then some (0, none)
    else match gap with
      | .blank =>
        if isBlank c then pass (newline c) (mainLoop .blank rest)
        else do
          if ← both '/' '/' (c :: rest) then mainLoop .lineComment rest
          else if ← both '/' '*' (c :: rest) then mainLoop .star rest
          else some (0, some (c :: rest))
      | .lineComment =>
        if c = '\n' then pass 1 (mainLoop .blank rest) else mainLoop .lineComment rest
      | .star => mainLoop (.comment 1) rest
      | .comment interior => do
        if ← both '/' '*' (c :: rest) then mainLoop (.comment (interior + 1)) rest
        else if ← both '*' '/' (c :: rest) then
          if interior = 1 then mainLoop .slash rest else mainLoop (.comment (interior - 1)) rest
        else pass (newline c) (mainLoop (.comment interior) rest)
      | .slash => mainLoop .blank rest

/-- An array after its opening bracket; the byte after the closing one is read. -/
def arrayLoop : ℕ → CStr → Option Taken
  | _, [] => none
  | interior, c :: rest =>
    if c = nul then some ⟨false, [], 0, c :: rest⟩
    else if bracket c interior = 0 then rest.head?.map fun _ => ⟨true, [], newline c, rest⟩
    else (arrayLoop (bracket c interior) rest).map fun t =>
      { t with text := c :: t.text, lines := newline c + t.lines }

/-- A text after its opening quote; after a backslash two bytes are read. -/
def quotedLoop : CStr → Option (CStr × ℕ × CStr)
  | [] => none
  | c :: rest =>
    if c = '"' ∨ c = nul then some ([], 0, rest)
    else if c = '\\' then
      match rest with
      | [] => none
      | d :: rest =>
        rest.head?.bind fun _ => (quotedLoop rest).map fun t => (unescape d :: t.1, t.2)
    else (quotedLoop rest).map fun t => (c :: t.1, newline c + t.2.1, t.2.2)

/-- A word without quotes. -/
def wordLoop : CStr → Option (CStr × CStr)
  | [] => none
  | c :: rest =>
    if isBlank c ∨ c = '{' ∨ c = '}' then some ([], c :: rest)
    else do
      if ← both '/' '*' (c :: rest) then some ([], c :: rest)
      else if ← both '/' '/' (c :: rest) then some ([], c :: rest)
      else (wordLoop rest).map fun t => (c :: t.1, t.2)

/-! ## A call -/

/-- How a call ends: the pointer that is returned, the token, the lines, whether there is an error,
and how many bytes of the buffer for the token are written. -/
structure Exit where
  pointer : Option CStr
  token : Token
  lines : ℕ
  error : Bool
  written : ℕ
  deriving DecidableEq, Repr

/-- The token at the place that the main loop has found. -/
def tokenAt (lines : ℕ) : CStr → Option Exit
  | [] => none
  | c :: rest =>
    if c = '[' then
      (arrayLoop 1 rest).map fun t =>
        if t.closed then
          ⟨some t.rest, ⟨t.text, false, true⟩, lines + t.lines, false, t.text.length + 1⟩
        -- the buffer begins with the NUL of an empty token
        else ⟨some t.rest, ⟨t.text, false, false⟩, lines + t.lines, true, max 1 t.text.length⟩
    else if c = '"' then
      (quotedLoop rest).map fun t =>
        ⟨some t.2.2, ⟨t.1.takeWhile (· ≠ nul), true, false⟩, lines + t.2.1, false,
          t.1.length + 1⟩
    else if c = '{' ∨ c = '}' then some ⟨some rest, ⟨[c], false, false⟩, lines, false, 2⟩
    else
      (wordLoop (c :: rest)).map fun t =>
        ⟨some t.2, ⟨t.1, false, false⟩, lines, false, t.1.length + 1⟩

/-- `hive_parser_iteration`; there is no result when a byte behind the NUL is read. -/
def hiveParserIteration (data : CStr) : Option Exit :=
  (mainLoop .blank data).bind fun s =>
    match s.2 with
    | none => some ⟨none, ⟨[], false, false⟩, s.1, false, 1⟩
    | some data => tokenAt s.1 data

/-! ## The data without the NUL -/

/-- The bytes at a place of the data, or behind the NUL. -/
def bytes : Option CStr → CStr
  | none => []
  | some data => data ++ [nul]

/-- The place of a pointer. -/
def place (p : CStr) : Option CStr := if p = [] then none else some p.dropLast

lemma place_bytes (data : Option CStr) : place (bytes data) = data := by
  cases data with
  | none => rfl
  | some data => simp [place, bytes]

lemma head?_append_nul (data : CStr) : ∃ c, (data ++ [nul]).head? = some c := by
  cases data with
  | nil => exact ⟨nul, rfl⟩
  | cons c data => exact ⟨c, rfl⟩

lemma both_append {c d : Char} (hd : d ≠ nul) (a : Char) (rest : CStr) :
    both c d (a :: (rest ++ [nul])) = some (decide (a = c ∧ rest.head? = some d)) := by
  rw [both]
  by_cases ha : a = c
  · rw [if_pos ha]
    cases rest with
    | nil => simp [ha, hd.symm]
    | cons b rest => simp [ha, Bool.beq_eq_decide_eq]
  · simp [ha]

/-- The main loop stops where it does without the NUL. -/
lemma mainLoop_append (gap : Gap) (data : CStr) :
    mainLoop gap (data ++ [nul]) =
      some ((skip gap data).1, (skip gap data).2.map (· ++ [nul])) := by
  induction data generalizing gap with
  | nil => rfl
  | cons c data ih =>
    have hslash := @both_append '*' '/' (by decide)
    have hline := @both_append '/' '/' (by decide)
    have hstar := @both_append '/' '*' (by decide)
    rw [List.cons_append, mainLoop.eq_def, skip.eq_def]
    dsimp only
    by_cases hnul : c = nul
    · rw [if_pos hnul, if_pos hnul]
      rfl
    rw [if_neg hnul, if_neg hnul]
    cases gap with
    | blank =>
      simp only [hline, hstar, ih, Option.bind_eq_bind, Option.bind_some, decide_eq_true_eq]
      split_ifs <;> rfl
    | lineComment =>
      simp only [ih]
      split_ifs <;> rfl
    | comment interior =>
      simp only [hslash, hstar, ih, Option.bind_eq_bind, Option.bind_some, decide_eq_true_eq]
      split_ifs <;> rfl
    | star | slash => exact ih _

lemma arrayLoop_append (interior : ℕ) (data : CStr) :
    arrayLoop interior (data ++ [nul]) =
      some { takeArray interior data with rest := (takeArray interior data).rest ++ [nul] } := by
  induction data generalizing interior with
  | nil => rfl
  | cons c data ih =>
    obtain ⟨d, hd⟩ := head?_append_nul data
    rw [List.cons_append, arrayLoop, takeArray, hd, ih]
    split_ifs <;> rfl

lemma quotedLoop_append (data : CStr) :
    quotedLoop (data ++ [nul]) = (takeQuoted data).map fun t => (t.1, t.2.1, bytes t.2.2) := by
  fun_induction takeQuoted data with
  | case1 => rfl
  | case2 c data hend =>
    rw [List.cons_append, quotedLoop.eq_def]
    simp only [hend, if_true]
    rfl
  | case3 hend => rfl
  | case4 d data hend ih =>
    obtain ⟨e, he⟩ := head?_append_nul data
    rw [List.cons_append, List.cons_append, quotedLoop.eq_def]
    simp only [hend, if_false, if_true, he, Option.bind_some, ih, Option.map_map]
    rfl
  | case5 c data hend hslash ih =>
    rw [List.cons_append, quotedLoop.eq_def]
    simp only [hend, hslash, if_false, ih, Option.map_map]
    rfl

lemma wordLoop_append (data : CStr) :
    wordLoop (data ++ [nul]) = some ((takeWord data).1, (takeWord data).2 ++ [nul]) := by
  induction data with
  | nil =>
    have hblank : isBlank nul = true := by decide
    simp [wordLoop, takeWord, hblank]
  | cons c data ih =>
    have hline := @both_append '/' '/' (by decide) c data
    have hstar := @both_append '/' '*' (by decide) c data
    rw [List.cons_append, wordLoop, takeWord]
    simp only [hline, hstar, ih, Option.bind_eq_bind, Option.bind_some, decide_eq_true_eq,
      Option.map_some]
    by_cases hend : isBlank c ∨ c = '{' ∨ c = '}'
    · have hstop : isBlank c ∨ c = '{' ∨ c = '}' ∨
          c = '/' ∧ (data.head? = some '*' ∨ data.head? = some '/') := by
        obtain h | h | h := hend
        · exact .inl h
        · exact .inr (.inl h)
        · exact .inr (.inr (.inl h))
      rw [if_pos hend, if_pos hstop]
      rfl
    rw [if_neg hend]
    rw [not_or, not_or] at hend
    simp only [hend.1, hend.2.1, hend.2.2, Bool.false_eq_true, false_or]
    by_cases hopen : c = '/' ∧ data.head? = some '*'
    · rw [if_pos hopen, if_pos ⟨hopen.1, .inl hopen.2⟩]
      rfl
    by_cases hpair : c = '/' ∧ data.head? = some '/'
    · rw [if_neg hopen, if_pos hpair, if_pos ⟨hpair.1, .inr hpair.2⟩]
      rfl
    · have hnone : ¬(c = '/' ∧ (data.head? = some '*' ∨ data.head? = some '/')) := by
        rintro ⟨hc, h | h⟩
        · exact hopen ⟨hc, h⟩
        · exact hpair ⟨hc, h⟩
      rw [if_neg hopen, if_neg hpair, if_neg hnone]

/-- What a call means for `hive_parse_buf`. -/
def Exit.scan (e : Exit) : Scan :=
  match e.pointer with
  | none => .finished e.lines
  | some p =>
    if tokenSize < e.written then .fault
    else if e.error then .unended e.token.text e.lines
    else .token e.token e.lines (place p)

/-- The buffer has room for the text and a NUL. -/
lemma fault_ite (n : ℕ) (s : Scan) :
    (if tokenSize < n + 1 then .fault else s) = if n < tokenSize then s else .fault := by
  by_cases h : n < tokenSize
  · rw [if_pos h, if_neg (Nat.not_lt.2 h)]
  · rw [if_neg h, if_pos (Nat.lt_succ_of_le (Nat.not_lt.1 h))]

lemma tokenAt_scan {data : CStr} (hne : data ≠ []) (lines : ℕ) :
    (tokenAt lines (data ++ [nul])).elim .fault Exit.scan = takeToken lines data := by
  obtain ⟨c, data, rfl⟩ := List.exists_cons_of_ne_nil hne
  have hplace : ∀ p : CStr, place (p ++ [nul]) = some p := fun p => place_bytes (some p)
  rw [List.cons_append, tokenAt, takeToken]
  split_ifs with harray hquote hbrace
  · rw [arrayLoop_append, Option.map_some, Option.elim_some]
    generalize takeArray 1 data = t
    obtain ⟨closed, text, l, rest⟩ := t
    cases closed with
    | false =>
      have hunended : tokenSize < max 1 text.length ↔ ¬text.length ≤ tokenSize := by
        have hsize : tokenSize = 1024 := rfl
        omega
      by_cases hle : text.length ≤ tokenSize
      · simp [Exit.scan, hunended, hle]
      · simp [Exit.scan, hunended, hle]
    | true =>
      simp only [Exit.scan, if_true, Bool.false_eq_true, if_false, hplace]
      exact fault_ite _ _
  · rw [quotedLoop_append]
    cases takeQuoted data with
    | none => rfl
    | some t =>
      simp only [Option.map_some, Option.elim_some, Exit.scan, Bool.false_eq_true, if_false,
        place_bytes]
      exact fault_ite _ _
  · have hsize : ¬tokenSize < 2 := by decide
    simp only [Option.elim_some, Exit.scan, if_neg hsize, Bool.false_eq_true, if_false, hplace]
  · have hword := wordLoop_append (c :: data)
    rw [List.cons_append] at hword
    rw [hword]
    simp only [Option.map_some, Option.elim_some, Exit.scan, Bool.false_eq_true, if_false, hplace]
    exact fault_ite _ _

/-- A call with the buffer behind it is what `HiveScan` makes of the data; with a token that does
not fit into the buffer, or a read behind the NUL, it is a fault. -/
theorem hiveParserIteration_scan (data : CStr) :
    (hiveParserIteration (data ++ [nul])).elim .fault Exit.scan = parserIteration data := by
  rw [hiveParserIteration, mainLoop_append, parserIteration]
  cases hskip : skip .blank data with
  | mk lines rest =>
    cases rest with
    | none => rfl
    | some rest =>
      have hrest : (skip .blank data).2 = some rest := by rw [hskip]
      obtain ⟨-, c, cs, rfl, -⟩ := skip_spec hrest
      exact tokenAt_scan (List.cons_ne_nil c cs) lines

end WebTester.Hive.Bytes
