import WebTester.FlexVal
import WebTester.Shell

/-!
# The command line of LRVM

`execute_thread` starts LRVM through the shell and quotes the command and the working directory
with backslashes before some characters. What is left alone is read by the shell: `<`, the
quotes, the tab, what begins an expansion, and the backslash itself.
-/
namespace WebTester.Librun.CommandLine
open CString Flexval Shell

/-- The characters that `prepare_cmdarg` puts a backslash before. -/
def escaped (c : Char) : Bool := c ∈ [' ', '!', '&', '|', ';', '>', '(', ')']

/-- `prepare_cmdarg`. -/
def prepareCmdarg (src : CStr) : CStr :=
  src.flatMap fun c => if escaped c then ['\\', c] else [c]

/-- `RUN_CMD_LEN`. -/
def runCmdLen : ℕ := 4096

/-- What `execute_thread` prints into the command line besides the two arguments: `LRVM_FULL_CMD`,
the fields of the process, the configuration, and the options collected in `add`. -/
structure Launch where
  lrvm : CStr
  securityHash : CStr
  host : CStr
  port : ℕ
  unique : ℤ
  sockReadTimeout : CStr
  sockReadDelay : CStr
  uid : ℤ
  gid : ℤ
  add : CStr

namespace Launch

/-- What comes behind the working directory. -/
def options (l : Launch) : CStr :=
  " -security ".toList ++ l.securityHash ++ " -host ".toList ++ l.host ++ " -port ".toList ++
    decimal l.port ++ " -unique ".toList ++ printLong l.unique ++
    " -sock-read-timeout ".toList ++ l.sockReadTimeout ++
    " -sock-read-delay ".toList ++ l.sockReadDelay ++ " -uid ".toList ++ printLong l.uid ++
    " -gid ".toList ++ printLong l.gid ++ ' ' :: l.add ++ " 2>&1".toList

/-- The line before the command. -/
def beforeCmd (l : Launch) : CStr := l.lrvm ++ " -cmd ".toList

/-- The line before the working directory. -/
def beforeWorkdir (l : Launch) (cmdArg : CStr) : CStr :=
  l.beforeCmd ++ cmdArg ++ " -workdir ".toList

/-- The line that `execute_thread` passes to `popen`, cut off at the size of its buffer. An
argument that does not fit into its own buffer has no defined effect. -/
def commandLine (l : Launch) (cmd workdir : CStr) : Option CStr :=
  let cmdArg := prepareCmdarg cmd
  let workdirArg := prepareCmdarg workdir
  if cmdArg.length < runCmdLen ∧ workdirArg.length < runCmdLen then
    some ((l.beforeWorkdir cmdArg ++ workdirArg ++ l.options).take (runCmdLen - 1))
  else none

end Launch

/-- After the words `before`, and a space, stands a text that is exactly one word with this
value. -/
def OneWord (line start text value : CStr) (before : List CStr) : Prop :=
  ∃ rest, line = start ++ text ++ rest ∧
    readWords before.length line = some (before, ' ' :: (text ++ rest)) ∧
    word (text ++ rest) = some (value, rest)

/-- The shell reads the command and the working directory as they are. -/
def Passed (l : Launch) (cmd workdir : CStr) : Prop :=
  ∃ line, l.commandLine cmd workdir = some line ∧
    OneWord line l.beforeCmd (prepareCmdarg cmd) cmd [l.lrvm, "-cmd".toList] ∧
    OneWord line (l.beforeWorkdir (prepareCmdarg cmd)) (prepareCmdarg workdir) workdir
      [l.lrvm, "-cmd".toList, cmd, "-workdir".toList]

/-- Characters that are not escaped and do not stand for themselves. -/
def bad (c : Char) : Bool := c ∈ ['<', '$', '\x60', '"', '\'', '\t', '\n', '*', '?', '[']

/-- The texts that survive: not empty, none of the characters that are missed, no backslash but
before a `!`, and no `#` or `~` at the beginning. -/
structure Quotable (s : CStr) : Prop where
  nonempty : s ≠ []
  start : s.head? ≠ some '#' ∧ s.head? ≠ some '~'
  plain : ∀ c ∈ s, bad c = false
  backslash : ∀ i, s[i]? = some '\\' → s[i + 1]? = some '!'

/-- A text without backslashes. -/
lemma quotable_of_all {s : CStr} (hne : s ≠ []) (hstart : s.head? ≠ some '#' ∧ s.head? ≠ some '~')
    (h : s.all (fun c => !bad c && c != '\\') = true) : Quotable s := by
  have hall : ∀ c ∈ s, bad c = false ∧ c ≠ '\\' := by
    simpa using h
  exact ⟨hne, hstart, fun c hc => (hall c hc).1,
    fun i hi => absurd rfl (hall '\\' (List.mem_of_getElem? hi)).2⟩

/-- The length of an argument with its backslashes. -/
def quotedLength (s : CStr) : ℕ := s.length + s.countP escaped

/-! ## Characters -/

lemma ordinary_iff (c : Char) (he : escaped c = false) (hb : c ≠ '\\') :
    ordinary c = true ↔ bad c = false := by
  simp only [ordinary, delimits, expands, bad, escaped, List.mem_cons, List.not_mem_nil, or_false,
    decide_eq_false_iff_not, not_or, Bool.not_eq_true', Bool.or_eq_false_iff,
    beq_eq_false_iff_ne] at he ⊢
  tauto

lemma delimits_of_escaped {c : Char} (he : escaped c = true) : c = '!' ∨ delimits c = true := by
  simp only [delimits, escaped, List.mem_cons, List.not_mem_nil, or_false,
    decide_eq_true_eq] at he ⊢
  tauto

lemma ne_of_escaped {c : Char} (he : escaped c = true) :
    c ≠ '\n' ∧ c ≠ '\\' ∧ bad c = false ∧ isQuote c = false := by
  simp only [escaped, List.mem_cons, List.not_mem_nil, or_false, decide_eq_true_eq] at he
  rcases he with rfl | rfl | rfl | rfl | rfl | rfl | rfl | rfl <;> decide

lemma ordinary_exclamation : ordinary '!' = true := by decide

/-- What becomes of a character that is missed. -/
lemma bad_cases {c : Char} (h : bad c = true) :
    delimits c = true ∨ expands c = true ∨ isQuote c = true := by
  simp only [delimits, expands, bad, isQuote, List.mem_cons, List.not_mem_nil, or_false,
    decide_eq_true_eq, Bool.or_eq_true, beq_iff_eq] at h ⊢
  tauto

/-! ## Prepared arguments -/

lemma prepareCmdarg_escaped {c : Char} (he : escaped c = true) (s : CStr) :
    prepareCmdarg (c :: s) = '\\' :: c :: prepareCmdarg s := by
  simp [prepareCmdarg, he]

lemma prepareCmdarg_cons {c : Char} (he : escaped c = false) (s : CStr) :
    prepareCmdarg (c :: s) = c :: prepareCmdarg s := by
  simp [prepareCmdarg, he]

lemma length_prepareCmdarg (s : CStr) : (prepareCmdarg s).length = quotedLength s := by
  induction s with
  | nil => rfl
  | cons c s ih =>
    unfold quotedLength at ih ⊢
    by_cases he : escaped c = true
    · rw [prepareCmdarg_escaped he, List.countP_cons_of_pos he]
      simp only [List.length_cons]
      omega
    · rw [prepareCmdarg_cons (Bool.eq_false_iff.2 he), List.countP_cons_of_neg he]
      simp only [List.length_cons]
      omega

lemma quotes_prepareCmdarg (s : CStr) : quotes (prepareCmdarg s) = quotes s := by
  induction s with
  | nil => rfl
  | cons c s ih =>
    by_cases he : escaped c = true
    · have hquote := (ne_of_escaped he).2.2.2
      have hbackslash : isQuote '\\' = false := by decide
      simp [prepareCmdarg_escaped he, quotes_cons, hquote, hbackslash, ih]
    · simp [prepareCmdarg_cons (Bool.eq_false_iff.2 he), quotes_cons, ih]

/-- The part of the condition that speaks of what is inside. -/
def Body (s : CStr) : Prop :=
  (∀ c ∈ s, bad c = false) ∧ ∀ i, s[i]? = some '\\' → s[i + 1]? = some '!'

lemma body_nil : Body [] := ⟨by simp, by simp⟩

lemma body_cons_iff {c : Char} {s : CStr} :
    Body (c :: s) ↔ bad c = false ∧ (c = '\\' → s.head? = some '!') ∧ Body s := by
  constructor
  · rintro ⟨hplain, hbackslash⟩
    refine ⟨hplain c List.mem_cons_self, fun hc => ?_, ?_, fun i => hbackslash (i + 1)⟩
    · rw [List.head?_eq_getElem?]
      exact hbackslash 0 (congrArg some hc)
    · exact fun d hd => hplain d (List.mem_cons_of_mem _ hd)
  · rintro ⟨hc, hhead, hplain, hbackslash⟩
    refine ⟨?_, fun i hi => ?_⟩
    · intro d hd
      rcases List.mem_cons.1 hd with rfl | hd
      · exact hc
      · exact hplain d hd
    · cases i with
      | zero =>
        rw [List.getElem?_cons_succ, ← List.head?_eq_getElem?]
        exact hhead (Option.some.inj hi)
      | succ i => exact hbackslash i hi

/-! ## Reading them back -/

variable {s v r t : CStr}

/-- A character that is escaped, or stands for itself, becomes a character of the value. -/
lemma scan_prepareCmdarg {c : Char} (hc : escaped c = true ∨ c ≠ '\\' ∧ bad c = false) :
    scan .bare (prepareCmdarg (c :: s) ++ t) = push c (scan .bare (prepareCmdarg s ++ t)) := by
  by_cases he : escaped c = true
  · rw [prepareCmdarg_escaped he, List.cons_append, List.cons_append, scan_backslash,
      scan_escaped (ne_of_escaped he).1]
  · obtain ⟨hb, hbad⟩ := hc.resolve_left he
    have he := Bool.eq_false_iff.2 he
    rw [prepareCmdarg_cons he, List.cons_append, scan_ordinary ((ordinary_iff c he hb).2 hbad)]

lemma scan_prepareCmdarg_backslash :
    scan .bare (prepareCmdarg ('\\' :: s) ++ t) = scan .escaped (prepareCmdarg s ++ t) := by
  rw [prepareCmdarg_cons (by decide), List.cons_append, scan_backslash]

/-- A text that survives is read back. -/
lemma scan_of_body (hs : Body s) (ht : Ends t) :
    scan .bare (prepareCmdarg s ++ t) = some (s, t) := by
  induction s with
  | nil => exact scan_ends ht
  | cons c s ih =>
    obtain ⟨hbad, hhead, hbody⟩ := body_cons_iff.1 hs
    have htail := ih hbody
    by_cases hb : c = '\\'
    · subst hb
      obtain ⟨s, rfl⟩ := List.head?_eq_some_iff.1 (hhead rfl)
      have hexclamation : escaped '!' = true := by decide
      rw [scan_prepareCmdarg (.inl hexclamation)] at htail
      rw [scan_prepareCmdarg_backslash, prepareCmdarg_escaped hexclamation, List.cons_append,
        List.cons_append, scan_escaped (by decide), scan_ordinary ordinary_exclamation, htail]
      rfl
    · rw [scan_prepareCmdarg (.inr ⟨hb, hbad⟩), htail]
      rfl

/-- What may come behind an argument: nothing, or a space. -/
def SpaceOrEnd (t : CStr) : Prop := ∀ c ∈ t.head?, c = ' '

lemma SpaceOrEnd.ends (ht : SpaceOrEnd t) : Ends t := by
  intro c hc
  rw [ht c hc]
  rfl

/-- A word does not begin in an argument and end behind it. -/
lemma not_escaped_of_spaceOrEnd (ht : SpaceOrEnd t) (h : scan .escaped t = some (v, r)) :
    r.length < t.length ∧ v.head? = some ' ' := by
  cases t with
  | nil => cases h
  | cons c t =>
    obtain rfl := ht c rfl
    rw [scan_escaped (by decide)] at h
    obtain ⟨w, rfl, hw⟩ := push_eq_some_iff.1 h
    exact ⟨Nat.lt_succ_of_le (consumed_scan hw).2, rfl⟩

/-- A quote that is not escaped is lost. -/
lemma quotes_lt_of_isQuote {c : Char} (hc : isQuote c = true)
    (h : scan .bare (c :: (prepareCmdarg s ++ t)) = some (v, r)) :
    quotes v + quotes r < quotes (c :: s) + quotes t := by
  have happend : quotes (prepareCmdarg s ++ t) = quotes s + quotes t := by
    rw [quotes, List.countP_append, ← quotes, ← quotes, quotes_prepareCmdarg]
  have hopen : quotes v + quotes r + 1 ≤ quotes (prepareCmdarg s ++ t) := by
    simp only [isQuote, Bool.or_eq_true, beq_iff_eq] at hc
    rcases hc with rfl | rfl
    · rw [scan, if_neg (by decide), if_pos rfl] at h
      exact (consumed_scan h).1
    · rw [scan, if_neg (by decide), if_neg (by decide), if_pos rfl] at h
      exact (consumed_scan h).1
  rw [quotes_cons]
  omega

/-- A character that was missed ends the word, stops the reader, or loses a quote. -/
lemma scan_of_bad {c : Char} (hc : bad c = true)
    (h : scan .bare (c :: (prepareCmdarg s ++ t)) = some (v, r)) :
    v = [] ∨ quotes v + quotes r < quotes (c :: s) + quotes t := by
  rcases bad_cases hc with hdelim | hexp | hquote
  · rw [scan_delimiter hdelim] at h
    exact .inl (Prod.mk.inj (Option.some.inj h)).1.symm
  · rw [scan_expands hexp] at h
    cases h
  · exact .inr (quotes_lt_of_isQuote hquote h)

/-- A character of the value, and what the rest of the argument adds to it. -/
lemma length_le_of_push {c : Char}
    (ih : quotes s + quotes t ≤ quotes v + quotes r →
      scan .bare (prepareCmdarg s ++ t) = some (v, r) → v.length ≤ s.length)
    (hq : quotes (c :: s) + quotes t ≤ quotes (c :: v) + quotes r)
    (h : scan .bare (prepareCmdarg s ++ t) = some (v, r)) :
    (c :: v).length ≤ (c :: s).length := by
  rw [quotes_cons, quotes_cons] at hq
  exact Nat.succ_le_succ (ih (by omega) h)

/-- Without quotes that are lost, a value is not longer than what was prepared; behind a
backslash, by one at most. -/
lemma length_le_of_scan (ht : SpaceOrEnd t) (hr : t.length ≤ r.length)
    (hq : quotes s + quotes t ≤ quotes v + quotes r) :
    (scan .bare (prepareCmdarg s ++ t) = some (v, r) → v.length ≤ s.length) ∧
      (scan .escaped (prepareCmdarg s ++ t) = some (v, r) → v.length ≤ s.length + 1) := by
  induction s generalizing v with
  | nil =>
    constructor
    · intro h
      have hv := (scan_ends ht.ends).symm.trans h
      obtain ⟨rfl, -⟩ := Prod.mk.inj (Option.some.inj hv)
      exact Nat.le_refl _
    · intro h
      have hlt := (not_escaped_of_spaceOrEnd ht h).1
      omega
  | cons c s ih =>
    have hbare {v : CStr} (hq : quotes s + quotes t ≤ quotes v + quotes r)
        (h : scan .bare (prepareCmdarg s ++ t) = some (v, r)) : v.length ≤ s.length := (ih hq).1 h
    by_cases he : escaped c = true
    · constructor
      · intro h
        rw [scan_prepareCmdarg (.inl he)] at h
        obtain ⟨w, rfl, hw⟩ := push_eq_some_iff.1 h
        exact length_le_of_push hbare hq hw
      · intro h
        rw [prepareCmdarg_escaped he, List.cons_append, List.cons_append] at h
        obtain ⟨w, rfl, hw⟩ := exists_of_scan_escaped h
        rcases delimits_of_escaped he with rfl | hdelim
        · rw [scan_ordinary ordinary_exclamation] at hw
          obtain ⟨u, rfl, hu⟩ := push_eq_some_iff.1 hw
          have hbackslash : isQuote '\\' = false := by decide
          rw [quotes_cons (s := '!' :: u), hbackslash] at hq
          exact Nat.succ_le_succ (length_le_of_push hbare (by simpa using hq) hu)
        · rw [scan_delimiter hdelim] at hw
          obtain ⟨rfl, -⟩ := Prod.mk.inj (Option.some.inj hw)
          exact Nat.succ_le_succ (Nat.zero_le _)
    · have hcons := prepareCmdarg_cons (Bool.eq_false_iff.2 he) s
      constructor
      · intro h
        by_cases hb : c = '\\'
        · subst hb
          have hbackslash : isQuote '\\' = false := by decide
          rw [quotes_cons, hbackslash] at hq
          rw [scan_prepareCmdarg_backslash] at h
          exact (ih (by simpa using hq)).2 h
        · by_cases hbad : bad c = true
          · rw [hcons, List.cons_append] at h
            rcases scan_of_bad hbad h with rfl | hlt
            · exact Nat.zero_le _
            · omega
          · rw [scan_prepareCmdarg (.inr ⟨hb, Bool.eq_false_iff.2 hbad⟩)] at h
            obtain ⟨w, rfl, hw⟩ := push_eq_some_iff.1 h
            exact length_le_of_push hbare hq hw
      · intro h
        rw [hcons, List.cons_append] at h
        obtain ⟨w, rfl, hw⟩ := exists_of_scan_escaped h
        exact Nat.le_succ_of_le (length_le_of_push hbare hq hw)

/-- Behind a backslash that is to be read as itself, only a `!` gives itself. -/
lemma exclamation_of_scan (ht : SpaceOrEnd t)
    (h : scan .escaped (prepareCmdarg s ++ t) = some ('\\' :: s, t)) :
    s.head? = some '!' ∧ scan .bare (prepareCmdarg s ++ t) = some (s, t) := by
  cases s with
  | nil => exact absurd (not_escaped_of_spaceOrEnd ht h).2 (by decide)
  | cons d s =>
    by_cases he : escaped d = true
    · rw [prepareCmdarg_escaped he, List.cons_append, List.cons_append] at h
      obtain ⟨w, hw, hscan⟩ := exists_of_scan_escaped h
      obtain ⟨-, rfl⟩ := List.cons_eq_cons.1 hw
      rcases delimits_of_escaped he with rfl | hdelim
      · rw [scan_prepareCmdarg (.inl he)]
        rw [scan_ordinary ordinary_exclamation] at hscan
        exact ⟨rfl, hscan⟩
      · rw [scan_delimiter hdelim] at hscan
        cases hscan
    · rw [prepareCmdarg_cons (Bool.eq_false_iff.2 he), List.cons_append] at h
      obtain ⟨w, hw, hscan⟩ := exists_of_scan_escaped h
      obtain ⟨rfl, rfl⟩ := List.cons_eq_cons.1 hw
      -- one character too many comes out of what follows the second backslash
      have hq : quotes s + quotes t ≤ quotes ('\\' :: s) + quotes t := by
        rw [quotes_cons]
        omega
      have hle := (length_le_of_scan ht (Nat.le_refl _) hq).1 hscan
      simp only [List.length_cons] at hle
      omega

/-- Only a text that survives is read back. -/
lemma body_of_scan (ht : SpaceOrEnd t) (h : scan .bare (prepareCmdarg s ++ t) = some (s, t)) :
    Body s := by
  induction s with
  | nil => exact body_nil
  | cons c s ih =>
    rw [body_cons_iff]
    by_cases he : escaped c = true
    · obtain ⟨-, hbackslash, hbad, -⟩ := ne_of_escaped he
      rw [scan_prepareCmdarg (.inl he)] at h
      obtain ⟨w, hw, hscan⟩ := push_eq_some_iff.1 h
      obtain ⟨-, rfl⟩ := List.cons_eq_cons.1 hw
      exact ⟨hbad, fun hc => absurd hc hbackslash, ih hscan⟩
    · by_cases hb : c = '\\'
      · subst hb
        rw [scan_prepareCmdarg_backslash] at h
        obtain ⟨hhead, hscan⟩ := exclamation_of_scan ht h
        exact ⟨by decide, fun _ => hhead, ih hscan⟩
      · have hbad : bad c = false := by
          by_contra hbad
          rw [prepareCmdarg_cons (Bool.eq_false_iff.2 he), List.cons_append] at h
          rcases scan_of_bad (Bool.not_eq_false _ ▸ hbad) h with hnil | hlt
          · cases hnil
          · omega
        rw [scan_prepareCmdarg (.inr ⟨hb, hbad⟩)] at h
        obtain ⟨w, hw, hscan⟩ := push_eq_some_iff.1 h
        obtain ⟨-, rfl⟩ := List.cons_eq_cons.1 hw
        exact ⟨hbad, fun hc => absurd hc hb, ih hscan⟩

/-- An argument is one word with its value exactly when it survives. -/
lemma word_prepareCmdarg_iff (ht : SpaceOrEnd t) :
    word (prepareCmdarg s ++ t) = some (s, t) ↔ Quotable s := by
  constructor
  · intro h
    obtain ⟨⟨c, hc, hhash, htilde, hdelim⟩, hscan⟩ := starts_of_word h
    obtain ⟨hplain, hbackslash⟩ := body_of_scan ht hscan
    cases s with
    | nil =>
      rw [ht c hc] at hdelim
      cases hdelim
    | cons d s =>
      refine ⟨List.cons_ne_nil _ _, ?_, hplain, hbackslash⟩
      by_cases he : escaped d = true
      · constructor
        all_goals
          intro hd
          obtain rfl := Option.some.inj hd
          exact absurd he (by decide)
      · rw [prepareCmdarg_cons (Bool.eq_false_iff.2 he)] at hc
        obtain rfl : d = c := Option.some.inj hc
        exact ⟨fun hd => hhash (Option.some.inj hd), fun hd => htilde (Option.some.inj hd)⟩
  · intro h
    have hstarts : Starts (prepareCmdarg s) := by
      obtain ⟨d, s, rfl⟩ := List.exists_cons_of_ne_nil h.nonempty
      by_cases he : escaped d = true
      · rw [prepareCmdarg_escaped he]
        exact ⟨'\\', rfl, by decide, by decide, by decide⟩
      · have he := Bool.eq_false_iff.2 he
        rw [prepareCmdarg_cons he]
        refine ⟨d, rfl, ?_, ?_, ?_⟩
        · rintro rfl
          exact h.start.1 rfl
        · rintro rfl
          exact h.start.2 rfl
        · by_cases hb : d = '\\'
          · rw [hb]
            rfl
          · have hordinary := (ordinary_iff d he hb).2 (h.plain d List.mem_cons_self)
            simp only [ordinary, Bool.not_eq_true', Bool.or_eq_false_iff] at hordinary
            exact hordinary.1.2
    rw [word_of_starts hstarts, scan_of_body ⟨h.plain, h.backslash⟩ ht.ends]

/-! ## The line -/

/-- A word that the shell reads as it is written. -/
def PlainWord (w : CStr) : Prop := Starts w ∧ ∀ c ∈ w, ordinary c = true

lemma word_of_plainWord {w : CStr} (hw : PlainWord w) (ht : SpaceOrEnd t) :
    word (w ++ t) = some (w, t) := by
  rw [word_of_starts hw.1, scan_of_ordinary hw.2 ht.ends]

lemma plainWord_cmd : PlainWord "-cmd".toList :=
  ⟨⟨'-', rfl, by decide, by decide, by decide⟩, List.all_eq_true.1 (by decide)⟩

lemma plainWord_workdir : PlainWord "-workdir".toList :=
  ⟨⟨'-', rfl, by decide, by decide, by decide⟩, List.all_eq_true.1 (by decide)⟩

variable {l : Launch} {cmd workdir : CStr}

lemma spaceOrEnd_take {n : ℕ} {u : CStr} : SpaceOrEnd ((' ' :: u).take n) := by
  intro c hc
  cases n with
  | zero => cases hc
  | succ n => exact (Option.some.inj hc).symm

/-- What is left of the line behind the first of its parts. -/
lemma take_of_length_le {a b : CStr} {n : ℕ} (h : a.length ≤ n) :
    (a ++ b).take n = a ++ b.take (n - a.length) := by
  rw [List.take_append, List.take_of_length_le h]

lemma append_eq_cons {c : Char} {a : CStr} (b : CStr) (h : ∃ u, a = c :: u) :
    ∃ u, a ++ b = c :: u := by
  obtain ⟨u, rfl⟩ := h
  exact ⟨u ++ b, rfl⟩

lemma options_eq (l : Launch) : ∃ u, l.options = ' ' :: u := by
  have hsecurity : ∃ u, " -security ".toList = ' ' :: u := ⟨"-security ".toList, rfl⟩
  unfold Launch.options
  repeat refine append_eq_cons _ ?_
  exact hsecurity

/-- The line is long enough for both arguments. -/
def Fits (l : Launch) (cmd workdir : CStr) : Prop :=
  l.lrvm.length + 6 + quotedLength cmd + 10 + quotedLength workdir < runCmdLen

lemma length_beforeWorkdir :
    (l.beforeWorkdir (prepareCmdarg cmd) ++ prepareCmdarg workdir).length =
      l.lrvm.length + 6 + quotedLength cmd + 10 + quotedLength workdir := by
  simp only [Launch.beforeWorkdir, Launch.beforeCmd, List.length_append, length_prepareCmdarg]
  rfl

/-- What comes behind each of the arguments. -/
lemma commandLine_of_fits (h : Fits l cmd workdir) :
    ∃ t u, SpaceOrEnd u ∧ t = " -workdir ".toList ++ prepareCmdarg workdir ++ u ∧
      l.commandLine cmd workdir = some (l.beforeCmd ++ prepareCmdarg cmd ++ t) := by
  have hlength := @length_beforeWorkdir l cmd workdir
  unfold Fits runCmdLen at h
  obtain ⟨o, ho⟩ := options_eq l
  refine ⟨_, l.options.take (4095 - (l.beforeWorkdir (prepareCmdarg cmd) ++
    prepareCmdarg workdir).length), ho ▸ spaceOrEnd_take, rfl, ?_⟩
  have hargs : (prepareCmdarg cmd).length < runCmdLen ∧
      (prepareCmdarg workdir).length < runCmdLen := by
    rw [length_prepareCmdarg, length_prepareCmdarg, runCmdLen]
    omega
  have htake := take_of_length_le (a := l.beforeWorkdir (prepareCmdarg cmd) ++
    prepareCmdarg workdir) (b := l.options) (n := 4095) (by omega)
  rw [Launch.commandLine, if_pos hargs]
  refine congrArg some (htake.trans ?_)
  simp only [Launch.beforeWorkdir, List.append_assoc]

lemma spaceOrEnd_cons {u : CStr} : SpaceOrEnd (' ' :: u) := by
  intro c hc
  exact (Option.some.inj hc).symm

/-- The first two words of the line. -/
lemma readWords_line (hl : PlainWord l.lrvm) (n : ℕ) :
    readWords (n + 2) (l.beforeCmd ++ prepareCmdarg cmd ++ t) =
      (readWords n (' ' :: (prepareCmdarg cmd ++ t))).map
        fun p => (l.lrvm :: "-cmd".toList :: p.1, p.2) := by
  have hline : l.beforeCmd ++ prepareCmdarg cmd ++ t =
      l.lrvm ++ ' ' :: ("-cmd".toList ++ ' ' :: (prepareCmdarg cmd ++ t)) := by
    simp [Launch.beforeCmd]
  have hfirst := word_of_plainWord hl
    (t := ' ' :: ("-cmd".toList ++ ' ' :: (prepareCmdarg cmd ++ t))) spaceOrEnd_cons
  have hsecond := word_of_plainWord plainWord_cmd
    (t := ' ' :: (prepareCmdarg cmd ++ t)) spaceOrEnd_cons
  rw [hline, (readWords_succ hfirst).1, (readWords_succ hsecond).2, Option.map_map]
  rfl

/-- The shell reads both arguments as they are exactly when both survive the shell and fit. -/
theorem passed_iff (hl : PlainWord l.lrvm) :
    Passed l cmd workdir ↔ Quotable cmd ∧ Quotable workdir ∧ Fits l cmd workdir := by
  constructor
  · rintro ⟨line, hline, ⟨rest, hrest, -, hcmd⟩, ⟨rest', hrest', -, hworkdir⟩⟩
    have hlong : line.length < runCmdLen := by
      unfold Launch.commandLine at hline
      dsimp only at hline
      split at hline
      · obtain rfl := Option.some.inj hline
        rw [List.length_take, runCmdLen]
        omega
      · cases hline
    have hfits : Fits l cmd workdir := by
      have hlength := @length_beforeWorkdir l cmd workdir
      rw [hrest', List.length_append] at hlong
      unfold Fits
      omega
    obtain ⟨t, u, hu, ht, hline'⟩ := commandLine_of_fits hfits
    obtain rfl := Option.some.inj (hline.symm.trans hline')
    obtain rfl : t = rest := List.append_cancel_left hrest
    have hrest'' : u = rest' := by
      rw [ht, Launch.beforeWorkdir] at hrest'
      simpa using hrest'
    have hspace : SpaceOrEnd t := ht ▸ spaceOrEnd_cons
    rw [← hrest''] at hworkdir
    exact ⟨(word_prepareCmdarg_iff hspace).1 hcmd, (word_prepareCmdarg_iff hu).1 hworkdir, hfits⟩
  · rintro ⟨hcmd, hworkdir, hfits⟩
    obtain ⟨t, u, hu, ht, hline⟩ := commandLine_of_fits hfits
    have hspace : SpaceOrEnd t := ht ▸ spaceOrEnd_cons
    have hword := (word_prepareCmdarg_iff hspace).2 hcmd
    have hword' := (word_prepareCmdarg_iff hu).2 hworkdir
    refine ⟨_, hline, ⟨t, rfl, ?_, hword⟩, ⟨u, ?_, ?_, hword'⟩⟩
    · exact readWords_line hl 0
    · rw [ht, Launch.beforeWorkdir]
      simp
    · have hnext : t = ' ' :: ("-workdir".toList ++ ' ' :: (prepareCmdarg workdir ++ u)) := by
        rw [ht]
        simp
      have hdir := word_of_plainWord plainWord_workdir
        (t := ' ' :: (prepareCmdarg workdir ++ u)) spaceOrEnd_cons
      refine (readWords_line hl 2).trans ?_
      rw [(readWords_succ hword).2, hnext, (readWords_succ hdir).2]
      rfl

/-- LRVM in its usual place, for a process of an unprivileged user. -/
def sampleLaunch : Launch where
  lrvm := "/home/webtester/bin/lrvm".toList
  securityHash := "5d41402abc".toList
  host := "localhost".toList
  port := 4040
  unique := 7
  sockReadTimeout := "2.500000".toList
  sockReadDelay := "0.020000".toList
  uid := 1001
  gid := 1001
  add := []

lemma plainWord_sampleLaunch : PlainWord sampleLaunch.lrvm :=
  ⟨⟨'/', rfl, by decide, by decide, by decide⟩, List.all_eq_true.1 (by decide)⟩

theorem passed_iff_solution :
    Passed sampleLaunch "./solution (1)".toList "/tmp/run".toList := by
  have hcmd : Quotable "./solution (1)".toList :=
    quotable_of_all (by decide) (by decide) (by decide)
  have hworkdir : Quotable "/tmp/run".toList :=
    quotable_of_all (by decide) (by decide) (by decide)
  exact (passed_iff plainWord_sampleLaunch).2 ⟨hcmd, hworkdir, by unfold Fits; decide⟩

/-- `a<b` is read as `a`, with the input redirected. -/
theorem redirection_not_passed :
    word (prepareCmdarg "a<b".toList ++ " -workdir".toList) =
        some ("a".toList, "<b -workdir".toList) ∧
      ¬ Passed sampleLaunch "a<b".toList "/tmp/run".toList := by
  refine ⟨by decide, ?_⟩
  rintro ⟨line, -, ⟨rest, -, -, hcmd⟩, -⟩
  have hword : word (prepareCmdarg "a<b".toList ++ rest) =
      some ("a".toList, '<' :: 'b' :: rest) := rfl
  rw [hword] at hcmd
  exact absurd (Prod.mk.inj (Option.some.inj hcmd)).1 (by decide)

end WebTester.Librun.CommandLine
