import Mathlib.Data.List.Basic
import Mathlib.Algebra.Order.Group.Nat

/-!
# Words of a shell command

Token recognition and quote removal of a POSIX shell, for words in the place of an argument. A
word ends before an unquoted blank, newline or operator. There is no word where an expansion, a
substitution, a comment, a line continuation or an open quote takes part in it; `=` and `%` mean
nothing in an argument.
-/
namespace WebTester.Shell

/-- Ends a word when it is not quoted. -/
def delimits (c : Char) : Bool :=
  c ∈ [' ', '\t', '\n', '|', '&', ';', '<', '>', '(', ')']

/-- Begins an expansion or belongs to a pattern when it is not quoted. -/
def expands (c : Char) : Bool := c ∈ ['$', '\x60', '*', '?', '[']

def isBlank (c : Char) : Bool := c == ' ' || c == '\t'

/-- Where the reader is: outside quotes, inside, or behind a backslash in one of the places where it
escapes. -/
inductive Mode
  | bare
  | escaped
  | single
  | double
  | doubleEscaped

/-- The number of quotes that are open. -/
def Mode.opened : Mode → ℕ
  | .bare | .escaped => 0
  | .single | .double | .doubleEscaped => 1

/-- A character of the value. -/
def push (c : Char) (r : Option (List Char × List Char)) : Option (List Char × List Char) :=
  r.map fun p => (c :: p.1, p.2)

/-- The value of a word from here to its end, and what comes behind. -/
def scan : Mode → List Char → Option (List Char × List Char)
  | .bare, [] => some ([], [])
  | _, [] => none
  | .bare, c :: cs =>
    if c = '\\' then scan .escaped cs
    else if c = '\'' then scan .single cs
    else if c = '"' then scan .double cs
    else if delimits c then some ([], c :: cs)
    else if expands c then none
    else push c (scan .bare cs)
  | .escaped, c :: cs => if c = '\n' then none else push c (scan .bare cs)
  | .single, c :: cs => if c = '\'' then scan .bare cs else push c (scan .single cs)
  | .double, c :: cs =>
    if c = '\\' then scan .doubleEscaped cs
    else if c = '"' then scan .bare cs
    else if c ∈ ['$', '\x60'] then none
    else push c (scan .double cs)
  | .doubleEscaped, c :: cs =>
    if c = '\n' then none
    else if c ∈ ['$', '\x60', '"', '\\'] then push c (scan .double cs)
    else push '\\' (push c (scan .double cs))

/-- Reads a word. A `#` would begin a comment and a `~` would be expanded. -/
def word (input : List Char) : Option (List Char × List Char) :=
  match input with
  | [] => none
  | c :: _ => if c = '#' ∨ c = '~' ∨ delimits c = true then none else scan .bare input

/-- Reads words with blanks before them. -/
def readWords : ℕ → List Char → Option (List (List Char) × List Char)
  | 0, input => some ([], input)
  | n + 1, input => do
    let (w, rest) ← word (input.dropWhile isBlank)
    let (ws, rest) ← readWords n rest
    return (w :: ws, rest)

variable {c : Char} {m : Mode} {input v r : List Char}

lemma push_eq_some_iff {x : Option (List Char × List Char)} :
    push c x = some (v, r) ↔ ∃ w, v = c :: w ∧ x = some (w, r) := by
  cases x with
  | none => simp [push]
  | some p =>
    obtain ⟨w, s⟩ := p
    simp only [push, Option.map_some, Option.some.injEq, Prod.mk.injEq]
    constructor
    · rintro ⟨rfl, rfl⟩
      exact ⟨w, rfl, rfl, rfl⟩
    · rintro ⟨u, rfl, rfl, rfl⟩
      exact ⟨rfl, rfl⟩

/-! ## Single characters -/

lemma scan_backslash {cs : List Char} : scan .bare ('\\' :: cs) = scan .escaped cs := by
  rw [scan, if_pos rfl]

lemma scan_escaped {cs : List Char} (h : c ≠ '\n') :
    scan .escaped (c :: cs) = push c (scan .bare cs) := by
  rw [scan, if_neg h]

lemma scan_delimiter {cs : List Char} (h : delimits c = true) :
    scan .bare (c :: cs) = some ([], c :: cs) := by
  have hb : c ≠ '\\' ∧ c ≠ '\'' ∧ c ≠ '"' := by
    refine ⟨?_, ?_, ?_⟩ <;> rintro rfl <;> simp [delimits] at h
  rw [scan, if_neg hb.1, if_neg hb.2.1, if_neg hb.2.2, if_pos h]

lemma scan_expands {cs : List Char} (h : expands c = true) : scan .bare (c :: cs) = none := by
  have hb : c ≠ '\\' ∧ c ≠ '\'' ∧ c ≠ '"' := by
    refine ⟨?_, ?_, ?_⟩ <;> rintro rfl <;> simp [expands] at h
  have hd : ¬ delimits c = true := by
    simp only [expands, List.mem_cons, List.not_mem_nil, or_false, decide_eq_true_eq] at h
    rcases h with rfl | rfl | rfl | rfl | rfl <;> decide
  rw [scan, if_neg hb.1, if_neg hb.2.1, if_neg hb.2.2, if_neg hd, if_pos h]

/-- A character without a meaning of its own. -/
def ordinary (c : Char) : Bool :=
  !(c == '\\' || c == '\'' || c == '"' || delimits c || expands c)

lemma scan_ordinary {cs : List Char} (h : ordinary c = true) :
    scan .bare (c :: cs) = push c (scan .bare cs) := by
  simp only [ordinary, Bool.not_eq_true', Bool.or_eq_false_iff, beq_eq_false_iff_ne] at h
  obtain ⟨⟨⟨⟨hb, hs⟩, hd⟩, hdelim⟩, hexp⟩ := h
  rw [scan, if_neg hb, if_neg hs, if_neg hd, hdelim, hexp]
  rfl

/-- What was read behind a backslash begins with the character there. -/
lemma exists_of_scan_escaped {cs : List Char} (h : scan .escaped (c :: cs) = some (v, r)) :
    ∃ w, v = c :: w ∧ scan .bare cs = some (w, r) := by
  have hnewline : c ≠ '\n' := by
    rintro rfl
    rw [scan, if_pos rfl] at h
    cases h
  rw [scan_escaped hnewline] at h
  exact push_eq_some_iff.1 h

/-! ## What is consumed -/

def isQuote (c : Char) : Bool := c == '\'' || c == '"'

def quotes (s : List Char) : ℕ := s.countP isQuote

lemma quotes_cons (c : Char) (s : List Char) :
    quotes (c :: s) = (if isQuote c then 1 else 0) + quotes s := by
  rw [quotes, quotes, List.countP_cons, Nat.add_comm]

/-- What reading a text leaves of its quotes and of its length; `k` quotes are open before it. -/
def Consumed (k : ℕ) (input v r : List Char) : Prop :=
  quotes v + quotes r + k ≤ quotes input ∧ r.length ≤ input.length

lemma Consumed.push {k : ℕ} (h : Consumed k input v r) : Consumed k (c :: input) (c :: v) r := by
  obtain ⟨hq, hl⟩ := h
  rw [Consumed, quotes_cons, quotes_cons, List.length_cons]
  exact ⟨by omega, by omega⟩

/-- A character that is not part of the value. -/
lemma Consumed.skip {k k' : ℕ} (h : Consumed k' input v r)
    (hk : k ≤ (if isQuote c then 1 else 0) + k') : Consumed k (c :: input) v r := by
  obtain ⟨hq, hl⟩ := h
  rw [Consumed, quotes_cons, List.length_cons]
  exact ⟨by omega, by omega⟩

/-- Quotes that are not part of the value are gone, and nothing is added to what comes behind. -/
lemma consumed_scan (h : scan m input = some (v, r)) : Consumed m.opened input v r := by
  fun_induction scan m input generalizing v r with
  | case1 =>
    obtain ⟨rfl, rfl⟩ := Prod.mk.inj (Option.some.inj h)
    exact ⟨Nat.le_refl _, Nat.le_refl _⟩
  | case2 => cases h
  | case3 cs ih => exact (ih h).skip (by decide)
  | case4 cs _ ih => exact (ih h).skip (by decide)
  | case5 cs _ _ ih => exact (ih h).skip (by decide)
  | case6 c cs =>
    obtain ⟨rfl, rfl⟩ := Prod.mk.inj (Option.some.inj h)
    exact ⟨by simp [quotes, Mode.opened], Nat.le_refl _⟩
  | case7 => cases h
  | case8 c cs _ _ _ _ _ ih =>
    obtain ⟨w, rfl, hw⟩ := push_eq_some_iff.1 h
    exact (ih hw).push
  | case9 => cases h
  | case10 c cs _ ih =>
    obtain ⟨w, rfl, hw⟩ := push_eq_some_iff.1 h
    exact (ih hw).push
  | case11 cs ih => exact (ih h).skip (by decide)
  | case12 c cs _ ih =>
    obtain ⟨w, rfl, hw⟩ := push_eq_some_iff.1 h
    exact (ih hw).push
  | case13 cs ih => exact (ih h).skip (by decide)
  | case14 cs _ ih => exact (ih h).skip (by decide)
  | case15 => cases h
  | case16 c cs _ _ _ ih =>
    obtain ⟨w, rfl, hw⟩ := push_eq_some_iff.1 h
    exact (ih hw).push
  | case17 => cases h
  | case18 c cs _ _ ih =>
    obtain ⟨w, rfl, hw⟩ := push_eq_some_iff.1 h
    exact (ih hw).push
  | case19 c cs _ _ ih =>
    obtain ⟨w, rfl, hw⟩ := push_eq_some_iff.1 h
    obtain ⟨u, rfl, hu⟩ := push_eq_some_iff.1 hw
    obtain ⟨hq, hl⟩ := (ih hu).push (c := c)
    refine ⟨?_, hl⟩
    rw [quotes_cons]
    exact (Nat.zero_add (quotes (c :: u))).symm ▸ hq

/-! ## Ordinary words -/

/-- Nothing comes, or an unquoted character that ends a word. -/
def Ends (rest : List Char) : Prop := ∀ c ∈ rest.head?, delimits c = true

lemma scan_ends {rest : List Char} (h : Ends rest) : scan .bare rest = some ([], rest) := by
  cases rest with
  | nil => rfl
  | cons c cs => exact scan_delimiter (h c rfl)

lemma scan_of_ordinary {w rest : List Char} (hw : ∀ c ∈ w, ordinary c = true) (h : Ends rest) :
    scan .bare (w ++ rest) = some (w, rest) := by
  induction w with
  | nil => exact scan_ends h
  | cons c cs ih =>
    rw [List.cons_append, scan_ordinary (hw c List.mem_cons_self),
      ih fun d hd => hw d (List.mem_cons_of_mem _ hd)]
    rfl

/-- A word begins with none of the characters that mean something there. -/
def Starts (w : List Char) : Prop :=
  ∃ c ∈ w.head?, c ≠ '#' ∧ c ≠ '~' ∧ delimits c = false

lemma word_of_starts {w rest : List Char} (h : Starts w) :
    word (w ++ rest) = scan .bare (w ++ rest) := by
  obtain ⟨c, hc, hhash, htilde, hdelim⟩ := h
  obtain ⟨cs, rfl⟩ := List.head?_eq_some_iff.1 hc
  simp [word, hhash, htilde, hdelim]

lemma starts_of_word (h : word input = some (v, r)) :
    Starts input ∧ scan .bare input = some (v, r) := by
  cases input with
  | nil => cases h
  | cons c cs =>
    simp only [word] at h
    split at h
    · cases h
    · rename_i hc
      simp only [not_or, Bool.not_eq_true] at hc
      exact ⟨⟨c, rfl, hc.1, hc.2.1, hc.2.2⟩, h⟩

/-- No blank is skipped before a word that begins here. -/
lemma dropWhile_of_starts (h : Starts input) : input.dropWhile isBlank = input := by
  obtain ⟨c, hc, -, -, hdelim⟩ := h
  obtain ⟨cs, rfl⟩ := List.head?_eq_some_iff.1 hc
  refine List.dropWhile_cons_of_neg fun hblank => ?_
  simp only [isBlank, Bool.or_eq_true, beq_iff_eq] at hblank
  rcases hblank with rfl | rfl
  · exact absurd hdelim (by decide)
  · exact absurd hdelim (by decide)

/-- One word is read, with or without a space before it. -/
lemma readWords_succ {n : ℕ} (h : word input = some (v, r)) :
    readWords (n + 1) input = (readWords n r).map (fun p => (v :: p.1, p.2)) ∧
      readWords (n + 1) (' ' :: input) = (readWords n r).map (fun p => (v :: p.1, p.2)) := by
  have hdrop := dropWhile_of_starts (starts_of_word h).1
  have hspace : (' ' :: input).dropWhile isBlank = input := by
    rw [List.dropWhile_cons_of_pos (by decide), hdrop]
  constructor
  · rw [readWords, hdrop, h]
    simp only [Option.bind_eq_bind, Option.bind_some, Option.map_eq_bind]
    rfl
  · rw [readWords, hspace, h]
    simp only [Option.bind_eq_bind, Option.bind_some, Option.map_eq_bind]
    rfl

end WebTester.Shell
