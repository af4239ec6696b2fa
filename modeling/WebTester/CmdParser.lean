import Mathlib.Algebra.BigOperators.Group.List.Basic
import WebTester.HiveScan

/-!
# Arguments of a command line

`cmd_parser_iterator` takes one argument into a buffer of 65535 bytes and gives the place after it,
`cmd_parse_buf` collects the arguments. The end of an argument and the end of the line are told by
one return value: an argument of no characters ends the line.
-/
namespace WebTester.Cmd
open CString
open Hive (nul escape quote)

/-- What stands between arguments: `char` is signed in both comparisons. -/
@[irreducible] def isGap (c : Char) : Bool := schar c ≤ 32 || 127 ≤ schar c

lemma isGap_space : isGap ' ' = true := by unfold isGap; decide

lemma isGap_quote : isGap '"' = false := by unfold isGap; decide

def unescape (c : Char) : Char :=
  if c = 'n' then '\n' else if c = 'r' then '\r' else if c = 't' then '\t' else c

/-- The line from its next argument on. -/
def skip : CStr → Option CStr
  | [] => none
  | c :: rest => if c = nul then none else if isGap c then skip rest else some (c :: rest)

/-- An argument after its opening quote: what is written, and the line after it unless that is past
the last NUL. After a backslash at the end of the line nothing can be read. -/
def takeQuoted : CStr → Option (CStr × Option CStr)
  | [] => some ([], none)
  | c :: rest =>
    if c = '"' ∨ c = nul then some ([], some rest)
    else if c = '\\' then
      match rest with
      | [] => none
      | d :: rest => (takeQuoted rest).map fun t => (unescape d :: t.1, t.2)
    else (takeQuoted rest).map fun t => (c :: t.1, t.2)

/-- An argument without quotes. -/
def takeWord : CStr → Option (CStr × Option CStr)
  | [] => some ([], some [])
  | c :: rest =>
    if isGap c then some ([], some (c :: rest))
    else if c = '\\' then
      match rest with
      | [] => none
      | d :: rest => (takeWord rest).map fun t => (unescape d :: t.1, t.2)
    else (takeWord rest).map fun t => (c :: t.1, t.2)

/-- The size of the buffer for an argument. -/
def tokenSize : ℕ := 65535

/-- How `cmd_parser_iterator` ends: with `NULL`, with an argument and the line after it, or outside
of its buffers. -/
inductive Scan
  | finished
  | token (text : CStr) (rest : Option CStr)
  | fault
  deriving DecidableEq, Repr

/-- What was taken is ended by a NUL; nothing taken looks like the end of the line. -/
def finish : Option (CStr × Option CStr) → Scan
  | none => .fault
  | some (text, rest) =>
    if text.length < tokenSize then
      if text = [] then .finished else .token (text.takeWhile (· ≠ nul)) rest
    else .fault

def parserIterator : Option CStr → Scan
  | none => .fault
  | some line =>
    match skip line with
    | none => .finished
    | some [] => .finished
    | some (c :: rest) => finish (if c = '"' then takeQuoted rest else takeWord (c :: rest))

/-- `strarr_append`: the count is an `int`. -/
def strarrAppend (arr : List (Option CStr)) (s : Option CStr) : Option (List (Option CStr)) :=
  if arr.length + 1 < 2 ^ 31 then some (arr ++ [s]) else none

/-- The loop of `cmd_parse_buf`. -/
def parseLoop : ℕ → Option CStr → List (Option CStr) → Option (List (Option CStr))
  | 0, _, _ => none
  | fuel + 1, shift, argv =>
    match parserIterator shift with
    | .finished => some argv
    | .token text rest => strarrAppend argv (some text) >>= parseLoop fuel rest
    | .fault => none

/-- The arguments and a `NULL` after them, and their count. -/
def parseBuf (buf : CStr) : Option (List (Option CStr) × ℕ) := do
  let argv ← parseLoop (buf.length + 1) (some buf) []
  let argv ← strarrAppend argv none
  return (argv, argv.length - 1)

/-! ## The loop takes a part of the line in every turn -/

lemma skip_length {line rest : CStr} (h : skip line = some rest) : rest.length ≤ line.length := by
  induction line with
  | nil => simp [skip] at h
  | cons c line ih =>
    rw [skip] at h
    split_ifs at h
    · exact Nat.le_succ_of_le (ih h)
    · rw [← Option.some.inj h]

lemma takeQuoted_length {line text rest : CStr} (h : takeQuoted line = some (text, some rest)) :
    rest.length ≤ line.length := by
  fun_induction takeQuoted line generalizing text with
  | case1 => simp at h
  | case2 c line hend =>
    simp only [Option.some.injEq, Prod.mk.injEq] at h
    simp [h.2]
  | case3 => simp at h
  | case4 hend d line ih =>
    obtain ⟨⟨text', rest'⟩, ht, heq⟩ := Option.map_eq_some_iff.1 h
    obtain ⟨-, rfl⟩ : _ ∧ rest' = some rest := by simpa using heq
    exact Nat.le_succ_of_le (Nat.le_succ_of_le (ih ht))
  | case5 c line hend hslash ih =>
    obtain ⟨⟨text', rest'⟩, ht, heq⟩ := Option.map_eq_some_iff.1 h
    obtain ⟨-, rfl⟩ : _ ∧ rest' = some rest := by simpa using heq
    exact Nat.le_succ_of_le (ih ht)

lemma takeWord_length {line text rest : CStr} (h : takeWord line = some (text, some rest)) :
    text.length + rest.length ≤ line.length := by
  fun_induction takeWord line generalizing text with
  | case1 =>
    obtain ⟨rfl, rfl⟩ : [] = text ∧ [] = rest := by simpa using h
    simp
  | case2 c line hend =>
    obtain ⟨rfl, rfl⟩ : [] = text ∧ c :: line = rest := by simpa using h
    simp
  | case3 => simp at h
  | case4 d line hend ih =>
    obtain ⟨⟨text', rest'⟩, ht, heq⟩ := Option.map_eq_some_iff.1 h
    obtain ⟨rfl, rfl⟩ : unescape d :: text' = text ∧ rest' = some rest := by simpa using heq
    have := ih ht
    simp only [List.length_cons]
    omega
  | case5 c line hend hslash ih =>
    obtain ⟨⟨text', rest'⟩, ht, heq⟩ := Option.map_eq_some_iff.1 h
    obtain ⟨rfl, rfl⟩ : c :: text' = text ∧ rest' = some rest := by simpa using heq
    have := ih ht
    simp only [List.length_cons]
    omega

theorem parserIterator_length {line text rest : CStr}
    (h : parserIterator (some line) = .token text (some rest)) : rest.length < line.length := by
  rw [parserIterator] at h
  cases hskip : skip line with
  | none => simp [hskip] at h
  | some found =>
    have hle := skip_length hskip
    cases found with
    | nil => simp [hskip] at h
    | cons c found =>
      simp only [hskip] at h
      split_ifs at h with hquote
      · cases ht : takeQuoted found with
        | none => simp [ht, finish] at h
        | some t =>
          obtain ⟨t, r⟩ := t
          simp only [ht, finish] at h
          split_ifs at h
          obtain ⟨-, rfl⟩ := Scan.token.inj h
          exact (Nat.lt_succ_of_le (takeQuoted_length ht)).trans_le hle
      · cases ht : takeWord (c :: found) with
        | none => simp [ht, finish] at h
        | some t =>
          obtain ⟨t, r⟩ := t
          simp only [ht, finish] at h
          split_ifs at h with hfit hempty
          obtain ⟨-, rfl⟩ := Scan.token.inj h
          have hlen := takeWord_length ht
          have hpos := List.length_pos_iff.2 hempty
          omega

lemma parseLoop_none (fuel : ℕ) (argv : List (Option CStr)) : parseLoop fuel none argv = none := by
  cases fuel <;> rfl

/-- More fuel than characters changes nothing. -/
theorem parseLoop_fuel {fuel fuel' : ℕ} {line : CStr} (argv : List (Option CStr))
    (h : line.length < fuel) (h' : line.length < fuel') :
    parseLoop fuel (some line) argv = parseLoop fuel' (some line) argv := by
  induction fuel generalizing fuel' line argv with
  | zero => omega
  | succ fuel ih =>
    obtain ⟨fuel', rfl⟩ : ∃ n, fuel' = n + 1 := ⟨fuel' - 1, by omega⟩
    rw [parseLoop, parseLoop]
    cases hit : parserIterator (some line) with
    | finished => rfl
    | fault => rfl
    | token text rest =>
      dsimp only
      congr 1
      funext argv'
      cases rest with
      | none => rw [parseLoop_none, parseLoop_none]
      | some rest =>
        have hlt := parserIterator_length hit
        exact ih argv' (by omega) (by omega)

/-! ## Quoted arguments -/

lemma takeQuoted_escape {s : CStr} (hs : nul ∉ s) (rest : CStr) :
    takeQuoted (s.flatMap escape ++ '"' :: rest) = some (s, some rest) := by
  induction s with
  | nil => rw [List.flatMap_nil, List.nil_append, takeQuoted.eq_def]; simp
  | cons c s ih =>
    obtain ⟨hc, hs⟩ : c ≠ nul ∧ nul ∉ s := by simpa [eq_comm] using hs
    rw [List.flatMap_cons, List.append_assoc, escape]
    split_ifs with hesc
    · have hun : unescape c = c := by
        rcases hesc with rfl | rfl
        · rfl
        · rfl
      have hslash : ¬('\\' = '"' ∨ '\\' = nul) := by decide
      rw [List.cons_append, List.singleton_append, takeQuoted.eq_def]
      simp only [if_neg hslash, if_true, ih hs, Option.map_some, hun]
    · rw [not_or] at hesc
      rw [List.singleton_append, takeQuoted.eq_def]
      simp only [hesc, hc, or_self, if_false, ih hs, Option.map_some]

lemma parserIterator_space (line : CStr) :
    parserIterator (some (' ' :: line)) = parserIterator (some line) := by
  have hskip : skip (' ' :: line) = skip line := by
    rw [skip, if_neg (by decide), if_pos isGap_space]
  rw [parserIterator, parserIterator, hskip]

lemma parserIterator_quote {s : CStr} (hs : nul ∉ s) (rest : CStr) :
    parserIterator (some (quote s ++ rest)) = finish (some (s, some rest)) := by
  have happ : quote s ++ rest = '"' :: (s.flatMap escape ++ '"' :: rest) := by simp [quote]
  have hskip : skip (quote s ++ rest) = some ('"' :: (s.flatMap escape ++ '"' :: rest)) := by
    rw [happ, skip, if_neg (by decide), isGap_quote, if_neg Bool.false_ne_true]
  simp only [parserIterator, hskip, if_true, takeQuoted_escape hs]

/-- The arguments in quotes with a space between two of them. -/
def quoted (args : List CStr) : CStr := [' '].intercalate (args.map quote)

/-- The same with a space before each of them. -/
def spaced (args : List CStr) : CStr := args.flatMap fun a => ' ' :: quote a

lemma quoted_cons (a : CStr) (args : List CStr) :
    quoted (a :: args) = quote a ++ spaced args := by
  induction args generalizing a with
  | nil => simp [quoted, spaced]
  | cons b args ih =>
    have hcons : quoted (a :: b :: args) = quote a ++ [' '] ++ quoted (b :: args) := by
      simp [quoted, List.intercalate_cons_cons]
    rw [hcons, ih]
    simp [spaced]

lemma parseLoop_quoted (args : List CStr) (fuel : ℕ) (argv : List (Option CStr)) :
    parseLoop fuel (some (quoted args)) argv = parseLoop fuel (some (spaced args)) argv := by
  cases fuel with
  | zero => rfl
  | succ fuel =>
    cases args with
    | nil => rfl
    | cons a args =>
      have hspaced : spaced (a :: args) = ' ' :: (quote a ++ spaced args) := by simp [spaced]
      rw [quoted_cons, hspaced, parseLoop, parseLoop, parserIterator_space]

/-- What an argument has to be: an empty one ends the line, a long one leaves the buffer. -/
def Passes (a : CStr) : Prop := a ≠ [] ∧ a.length < tokenSize

instance (a : CStr) : Decidable (Passes a) := inferInstanceAs (Decidable (_ ∧ _))

lemma parseLoop_spaced_iff {args : List CStr} (hnul : ∀ a ∈ args, nul ∉ a) {fuel : ℕ}
    (hfuel : args.length < fuel) {argv : List (Option CStr)} (hargv : argv.length < 2 ^ 31) :
    parseLoop fuel (some (spaced args)) argv = some (argv ++ args.map some) ↔
      (∀ a ∈ args, Passes a) ∧ argv.length + args.length < 2 ^ 31 := by
  induction args generalizing fuel argv with
  | nil =>
    obtain ⟨fuel, rfl⟩ : ∃ n, fuel = n + 1 := ⟨fuel - 1, by simp at hfuel; omega⟩
    have hend : parserIterator (some (spaced [])) = .finished := rfl
    simpa [parseLoop, hend] using hargv
  | cons a args ih =>
    obtain ⟨fuel, rfl⟩ : ∃ n, fuel = n + 1 := ⟨fuel - 1, by omega⟩
    obtain ⟨ha, hargs⟩ := List.forall_mem_cons.1 hnul
    have hspaced : spaced (a :: args) = ' ' :: (quote a ++ spaced args) := by simp [spaced]
    rw [hspaced, parseLoop, parserIterator_space, parserIterator_quote ha, List.forall_mem_cons,
      finish]
    split_ifs with hfit hempty
    · subst hempty
      simp [Passes]
    · have htext : a.takeWhile (· ≠ nul) = a := by
        rw [List.takeWhile_eq_self_iff]
        exact fun c hc => decide_eq_true fun heq => ha (heq ▸ hc)
      rw [htext]
      dsimp only
      rw [strarrAppend]
      split_ifs with hcount
      · have hlen : (argv ++ [some a]).length + args.length = argv.length + (a :: args).length := by
          simp only [List.length_append, List.length_cons, List.length_nil]
          omega
        have hnext : (argv ++ [some a]).length < 2 ^ 31 := by simpa using hcount
        have hrun := ih hargs (Nat.lt_of_succ_lt_succ hfuel) hnext
        rw [hlen, List.append_assoc, List.singleton_append] at hrun
        simpa [Passes, hfit, hempty] using hrun
      · refine iff_of_false (by simp) ?_
        rintro ⟨-, hlt⟩
        simp only [List.length_cons] at hlt
        omega
    · refine iff_of_false (by simp) ?_
      rintro ⟨⟨⟨-, h⟩, -⟩, -⟩
      exact hfit h

/-- The arguments come back from their quoted form if and only if none is empty or too long and
their count is an `int`. -/
theorem parseBuf_quoted_iff (args : List CStr) (h : ∀ a ∈ args, nul ∉ a) :
    parseBuf (quoted args) = some (args.map some ++ [none], args.length) ↔
      (∀ a ∈ args, a ≠ [] ∧ a.length < tokenSize) ∧ args.length + 1 < 2 ^ 31 := by
  have hfuel : args.length < (quoted args).length + 1 := by
    cases args with
    | nil => simp
    | cons a args =>
      have hlen : args.length ≤ (spaced args).length := by
        have hone : ∀ n ∈ args.map fun a => (' ' :: quote a).length, 1 ≤ n := by simp
        have hsum := List.length_le_sum_of_one_le _ hone
        rw [List.length_map] at hsum
        rw [spaced, List.length_flatMap]
        exact hsum
      have hpos : 0 < (quote a).length := by simp [quote]
      rw [quoted_cons, List.length_append, List.length_cons]
      omega
  have hzero : ([] : List (Option CStr)).length < 2 ^ 31 := by decide
  have hloop := parseLoop_spaced_iff h hfuel hzero
  simp only [List.nil_append, List.length_nil, Nat.zero_add] at hloop
  rw [parseBuf, parseLoop_quoted]
  constructor
  · intro hparse
    obtain ⟨argv, hargv, hparse⟩ := Option.bind_eq_some_iff.1 hparse
    obtain ⟨argv', happ, hparse⟩ := Option.bind_eq_some_iff.1 hparse
    rw [strarrAppend] at happ
    split_ifs at happ with hcount
    obtain rfl := Option.some.inj happ
    obtain ⟨heq, -⟩ := Prod.mk.inj (Option.some.inj hparse)
    obtain ⟨rfl, -⟩ := List.append_inj' heq rfl
    rw [List.length_map] at hcount
    exact ⟨(hloop.1 hargv).1, hcount⟩
  · rintro ⟨hargs, hcount⟩
    have happ : strarrAppend (args.map some) none = some (args.map some ++ [none]) :=
      if_pos (by rwa [List.length_map])
    rw [hloop.2 ⟨hargs, by omega⟩]
    simp [happ]

theorem parseBuf_quoted_iff_special :
    parseBuf (quoted [['a', ' '], ['"', '\\', '\n', 'ÿ']]) =
      some ([some ['a', ' '], some ['"', '\\', '\n', 'ÿ'], none], 2) :=
  (parseBuf_quoted_iff [['a', ' '], ['"', '\\', '\n', 'ÿ']] (by decide)).2 (by decide)

theorem empty_argument_ends_line :
    parseBuf (quoted [['a'], [], ['b']]) ≠ some ([some ['a'], some [], some ['b'], none], 3) ∧
      parseBuf (quoted [['a'], [], ['b']]) = some ([some ['a'], none], 1) := by
  decide +kernel

end WebTester.Cmd
