import WebTester.CommandLine
import WebTester.Serialization

/-!
# The options of LRVM

`main` looks at its arguments one after the other and compares each with the names of the options.
The comparisons are statements in sequence: behind an option that takes a value, the value itself is
compared with the names that follow.
-/
namespace WebTester.Librun.LrvmOptions
open CString Flexval Shell CommandLine Serialization

/-- The variables of `main` that the arguments are stored in; `atof` of the two timeouts is taken
later. -/
@[ext] structure Options where
  cmd : CStr
  workdir : CStr
  security : CStr
  host : CStr
  unique : CStr
  port : ℤ
  sockReadTimeout : CStr
  sockReadDelay : CStr
  uid : ℤ
  gid : ℤ
  configFile : CStr
  useChroot : Bool
  deriving DecidableEq, Repr

/-- Before the loop, with what is in the arrays that are not initialized. -/
def Options.initial (security host unique : CStr) : Options where
  cmd := []
  workdir := "./".toList
  security := security
  host := host
  unique := unique
  port := -1
  sockReadTimeout := "2.5".toList
  sockReadDelay := "0.02".toList
  uid := -1
  gid := -1
  configFile := "/etc/lrvm.conf".toList
  useChroot := false

/-- An option with a value: its name, the size of the array that the value is copied into, if it is
copied, and the options with it. -/
structure Entry where
  name : CStr
  size : Option ℕ
  set : Options → CStr → Options

/-- The value fits into the array. -/
def Entry.Fits (e : Entry) (v : CStr) : Prop := ∀ n ∈ e.size, v.length < n

instance (e : Entry) (v : CStr) : Decidable (e.Fits v) :=
  inferInstanceAs (Decidable (∀ n ∈ e.size, v.length < n))

/-- What is done with a value; `strcpy` of one that does not fit has no defined effect. -/
def Entry.store (e : Entry) (v : CStr) (o : Options) : Option Options :=
  if e.Fits v then some (e.set o v) else none

def Entry.cmd : Entry := ⟨"-cmd".toList, some 4096, fun o v => { o with cmd := v }⟩

def Entry.workdir : Entry := ⟨"-workdir".toList, some 4096, fun o v => { o with workdir := v }⟩

def Entry.security : Entry := ⟨"-security".toList, some 128, fun o v => { o with security := v }⟩

def Entry.port : Entry := ⟨"-port".toList, none, fun o v => { o with port := atoi v }⟩

def Entry.host : Entry := ⟨"-host".toList, some 128, fun o v => { o with host := v }⟩

def Entry.unique : Entry := ⟨"-unique".toList, some 16, fun o v => { o with unique := v }⟩

def Entry.sockReadTimeout : Entry :=
  ⟨"-sock-read-timeout".toList, none, fun o v => { o with sockReadTimeout := v }⟩

def Entry.sockReadDelay : Entry :=
  ⟨"-sock-read-delay".toList, none, fun o v => { o with sockReadDelay := v }⟩

def Entry.uid : Entry := ⟨"-uid".toList, none, fun o v => { o with uid := atol v }⟩

def Entry.gid : Entry := ⟨"-gid".toList, none, fun o v => { o with gid := atol v }⟩

def Entry.configFile : Entry :=
  ⟨"-config-file".toList, some 4096, fun o v => { o with configFile := v }⟩

/-- The options with a value, in the order of the comparisons. -/
def entries : List Entry := [.cmd, .workdir, .security, .port, .host, .unique, .sockReadTimeout,
  .sockReadDelay, .uid, .gid, .configFile]

/-- `if (C_ARG_EQ (name) && i < __argc - 1)`, with the arguments from the present one on. -/
def takeArg (s : List CStr × Options) (e : Entry) : Option (List CStr × Options) :=
  match s with
  | (a :: v :: rest, o) =>
    if a = e.name then (e.store v o).map fun o => (v :: rest, o) else some (a :: v :: rest, o)
  | s => some s

/-- `-chroot` takes no value, but an argument is left out behind it. -/
def takeChroot (s : List CStr × Options) : List CStr × Options :=
  if s.1.head? = some "-chroot".toList then (s.1.tail, { s.2 with useChroot := true }) else s

/-- The body of the loop, and `i++`. -/
def argBody (s : List CStr × Options) : Option (List CStr × Options) :=
  (entries.foldlM takeArg s).map fun s => ((takeChroot s).1.tail, (takeChroot s).2)

/-- The loop; every turn takes an argument. -/
def argLoop : ℕ → List CStr × Options → Option Options
  | 0, s => some s.2
  | n + 1, s => if s.1 = [] then some s.2 else argBody s >>= argLoop n

/-- What `main` reads from its arguments. -/
def readOptions (argv : List CStr) (o : Options) : Option Options := argLoop argv.length (argv, o)

/-! ## What the server passes -/

/-- What `execute_thread` collects in `add`. -/
def addText (configFile : CStr) (chroot : Bool) : CStr :=
  (if configFile ≠ [] then " -config-file ".toList ++ configFile else []) ++
    if chroot then " -chroot".toList else []

/-- Names and values as arguments. -/
def pairWords (ps : List (CStr × CStr)) : List CStr := ps.flatMap fun p => [p.1, p.2]

/-- The file with the configuration, if there is one. -/
def configPairs (configFile : CStr) : List (CStr × CStr) :=
  if configFile ≠ [] then [("-config-file".toList, configFile)] else []

/-- The arguments that `add` stands for. -/
def addWords (configFile : CStr) (chroot : Bool) : List CStr :=
  pairWords (configPairs configFile) ++ if chroot then ["-chroot".toList] else []

/-- The options of the command line, and their values. -/
def pairs (l : Launch) : List (CStr × CStr) := [
  ("-security".toList, l.securityHash), ("-host".toList, l.host), ("-port".toList, decimal l.port),
  ("-unique".toList, printLong l.unique), ("-sock-read-timeout".toList, l.sockReadTimeout),
  ("-sock-read-delay".toList, l.sockReadDelay), ("-uid".toList, printLong l.uid),
  ("-gid".toList, printLong l.gid)]

/-- All options that are always there. -/
def givenPairs (l : Launch) (cmd workdir : CStr) : List (CStr × CStr) :=
  ("-cmd".toList, cmd) :: ("-workdir".toList, workdir) :: pairs l

/-- The arguments that LRVM is to be started with. -/
def launchWords (l : Launch) (cmd workdir configFile : CStr) (chroot : Bool) : List CStr :=
  l.lrvm :: pairWords (givenPairs l cmd workdir) ++ addWords configFile chroot

/-- Words with a space before each. -/
def spaced (ws : List CStr) : CStr := ws.flatMap fun w => ' ' :: w

/-- The names that an argument is compared with. -/
def optionNames : List CStr := entries.map (·.name) ++ ["-chroot".toList]

/-- What the server must have put into the command line. -/
structure Readable (l : Launch) (cmd workdir configFile : CStr) (chroot : Bool) : Prop where
  add : l.add = addText configFile chroot
  quotable : Quotable cmd ∧ Quotable workdir
  plain : ∀ w ∈ [l.lrvm, l.securityHash, l.host, l.sockReadTimeout, l.sockReadDelay], PlainWord w
  config : configFile ≠ [] → PlainWord configFile
  values : ∀ v ∈ [l.lrvm, cmd, workdir, l.securityHash, l.host, l.sockReadTimeout,
    l.sockReadDelay, configFile], v ∉ optionNames
  security : l.securityHash.length < 128
  host : l.host.length < 128
  unique : (printLong l.unique).length < 16
  addLength : (addText configFile chroot).length < 1024
  port : l.port < 2 ^ 31
  uid : -2 ^ 63 ≤ l.uid ∧ l.uid < 2 ^ 63
  gid : -2 ^ 63 ≤ l.gid ∧ l.gid < 2 ^ 63
  fits : (l.beforeWorkdir (prepareCmdarg cmd) ++ prepareCmdarg workdir ++ l.options).length <
    runCmdLen

/-- What LRVM should have read. -/
def launchOptions (l : Launch) (cmd workdir configFile : CStr) (chroot : Bool) : Options where
  cmd := cmd
  workdir := workdir
  security := l.securityHash
  host := l.host
  unique := printLong l.unique
  port := l.port
  sockReadTimeout := l.sockReadTimeout
  sockReadDelay := l.sockReadDelay
  uid := l.uid
  gid := l.gid
  configFile := if configFile ≠ [] then configFile else "/etc/lrvm.conf".toList
  useChroot := chroot

/-- Options with their values are stored one after the other. -/
inductive Stored : List (CStr × CStr) → Options → Options → Prop
  | nil (o : Options) : Stored [] o o
  | cons (e : Entry) {v : CStr} {ps : List (CStr × CStr)} {o o' : Options} (he : e ∈ entries)
      (hv : v ∉ optionNames) (hfits : e.Fits v) (hps : Stored ps (e.set o v) o') :
      Stored ((e.name, v) :: ps) o o'

/-! ## One turn of the loop -/

variable {a v : CStr} {rest : List CStr} {o : Options} {e : Entry}

lemma takeArg_of_ne (h : a ≠ e.name) : takeArg (a :: rest, o) e = some (a :: rest, o) := by
  cases rest with
  | nil => rfl
  | cons v rest => exact if_neg h

lemma takeArg_of_eq (h : e.Fits v) :
    takeArg (e.name :: v :: rest, o) e = some (v :: rest, e.set o v) := by
  rw [takeArg, if_pos rfl, Entry.store, if_pos h]
  rfl

lemma foldlM_takeArg (es : List Entry) (h : ∀ e ∈ es, a ≠ e.name) :
    es.foldlM takeArg (a :: rest, o) = some (a :: rest, o) := by
  induction es with
  | nil => rfl
  | cons e es ih =>
    rw [List.foldlM_cons, takeArg_of_ne (h e List.mem_cons_self), Option.bind_eq_bind,
      Option.bind_some]
    exact ih fun e he => h e (List.mem_cons_of_mem _ he)

lemma names_nodup : (entries.map (·.name)).Nodup := by decide

lemma takeChroot_of_ne (h : a ≠ "-chroot".toList) :
    takeChroot (a :: rest, o) = (a :: rest, o) :=
  if_neg fun heq => h (Option.some.inj heq)

/-- An argument that is no option. -/
lemma argBody_of_notMem (h : a ∉ optionNames) : argBody (a :: rest, o) = some (rest, o) := by
  have hnames : ∀ e ∈ entries, a ≠ e.name := by
    rintro e he rfl
    exact h (List.mem_append_left _ (List.mem_map_of_mem he))
  have hchroot : a ≠ "-chroot".toList := by
    rintro rfl
    exact h (List.mem_append_right _ List.mem_cons_self)
  rw [argBody, foldlM_takeArg _ hnames, Option.map_some, takeChroot_of_ne hchroot]
  rfl

/-- An option, and a value that is not the name of one. -/
lemma argBody_entry (he : e ∈ entries) (hv : v ∉ optionNames) (hfits : e.Fits v) :
    argBody (e.name :: v :: rest, o) = some (rest, e.set o v) := by
  obtain ⟨pre, post, hsplit⟩ := List.append_of_mem he
  have hnames := names_nodup
  rw [hsplit, List.map_append, List.map_cons] at hnames
  have hpre : ∀ d ∈ pre, e.name ≠ d.name := by
    intro d hd heq
    exact (List.nodup_append.1 hnames).2.2 _ (List.mem_map_of_mem hd) _ List.mem_cons_self heq.symm
  have hpost : ∀ d ∈ post, v ≠ d.name := by
    rintro d hd rfl
    have hmem : d ∈ entries := hsplit ▸ List.mem_append_right _ (List.mem_cons_of_mem _ hd)
    exact hv (List.mem_append_left _ (List.mem_map_of_mem hmem))
  have hchroot : v ≠ "-chroot".toList := by
    rintro rfl
    exact hv (List.mem_append_right _ List.mem_cons_self)
  rw [argBody, hsplit, List.foldlM_append, foldlM_takeArg _ hpre, Option.bind_eq_bind,
    Option.bind_some, List.foldlM_cons, takeArg_of_eq hfits, Option.bind_eq_bind,
    Option.bind_some, foldlM_takeArg _ hpost, Option.map_some, takeChroot_of_ne hchroot]
  rfl

lemma argBody_chroot :
    argBody (["-chroot".toList], o) = some ([], { o with useChroot := true }) := by
  have hnames : ∀ e ∈ entries, "-chroot".toList ≠ e.name := by decide
  rw [argBody, foldlM_takeArg _ hnames]
  rfl

/-! ## The loop -/

lemma argLoop_nil (n : ℕ) : argLoop n ([], o) = some o := by
  cases n with
  | zero => rfl
  | succ n => exact if_pos rfl

lemma argLoop_succ {s : List CStr × Options} {n : ℕ} (h : argBody (a :: rest, o) = some s) :
    argLoop (n + 1) (a :: rest, o) = argLoop n s := by
  rw [argLoop, if_neg (List.cons_ne_nil _ _), h]
  rfl

lemma Stored.argLoop {ps : List (CStr × CStr)} {o o' : Options} (h : Stored ps o o') (n : ℕ)
    (rest : List CStr) :
    argLoop (ps.length + n) (pairWords ps ++ rest, o) = argLoop n (rest, o') := by
  induction h with
  | nil o =>
    rw [List.length_nil, Nat.zero_add]
    rfl
  | cons e he hv hfits _ ih =>
    rw [List.length_cons, Nat.add_right_comm]
    exact (argLoop_succ (argBody_entry he hv hfits)).trans ih

/-! ## Words of the command line -/

lemma plainWord_name {w : CStr} (hw : w ∈ optionNames) : PlainWord w := by
  have hnames : optionNames.all (fun w => w.head? == some '-' && w.all ordinary) = true := by
    decide
  have hname := List.all_eq_true.1 hnames w hw
  rw [Bool.and_eq_true, beq_iff_eq] at hname
  exact ⟨⟨'-', hname.1, by decide, by decide, by decide⟩, List.all_eq_true.1 hname.2⟩

/-- A number is not the name of an option. -/
lemma numeral_notMem {w : CStr} (h : ∀ c ∈ w, c.isDigit = true ∨ c = '-') : w ∉ optionNames := by
  have hletters : optionNames.all (fun w => w.any fun c => !c.isDigit && c != '-') = true := by
    decide
  intro hw
  obtain ⟨c, hc, hletter⟩ := List.any_eq_true.1 (List.all_eq_true.1 hletters w hw)
  rw [Bool.and_eq_true, Bool.not_eq_true', bne_iff_ne] at hletter
  rcases h c hc with hdigit | hdash
  · rw [hletter.1] at hdigit
    cases hdigit
  · exact hletter.2 hdash

lemma ne_of_digit {c d : Char} (h : c.isDigit = true ∨ c = '-')
    (hd : (d.isDigit || d == '-') = false) : c ≠ d := by
  rintro rfl
  simp only [Bool.or_eq_false_iff, beq_eq_false_iff_ne] at hd
  exact h.elim (by simp [hd.1]) hd.2

lemma ordinary_of_digit {c : Char} (h : c.isDigit = true ∨ c = '-') :
    ordinary c = true ∧ c ≠ '#' ∧ c ≠ '~' := by
  have hne : ∀ {d : Char}, (d.isDigit || d == '-') = false → c ≠ d := ne_of_digit h
  simp (disch := decide) [ordinary, delimits, expands, hne]

lemma plainWord_numeral {w : CStr} (hne : w ≠ []) (h : ∀ c ∈ w, c.isDigit = true ∨ c = '-') :
    PlainWord w := by
  obtain ⟨c, cs, rfl⟩ := List.exists_cons_of_ne_nil hne
  obtain ⟨hordinary, hhash, htilde⟩ := ordinary_of_digit (h c List.mem_cons_self)
  have hdelim : delimits c = false := by
    simp only [ordinary, Bool.not_eq_true', Bool.or_eq_false_iff] at hordinary
    exact hordinary.1.2
  exact ⟨⟨c, rfl, hhash, htilde, hdelim⟩, fun d hd => (ordinary_of_digit (h d hd)).1⟩

lemma atol_printLong {x : ℤ} (hlo : -2 ^ 63 ≤ x) (hhi : x < 2 ^ 63) : atol (printLong x) = x := by
  unfold printLong
  split
  · have hdigits : (decimal x.natAbs).takeWhile Char.isDigit = decimal x.natAbs :=
      List.takeWhile_eq_self_iff.2 fun _ => isDigit_of_mem_decimal
    have hvalue : digitsValue (decimal x.natAbs) = x.natAbs := Nat.ofDigitChars_ten_toDigits
    show clampLong (-(digitsValue ((decimal x.natAbs).takeWhile Char.isDigit) : ℤ)) = x
    rw [hdigits, hvalue, clampLong]
    omega
  · rw [atol_decimal (by omega)]
    omega

lemma spaced_cons (w : CStr) (ws : List CStr) (t : CStr) :
    spaced (w :: ws) ++ t = ' ' :: (w ++ (spaced ws ++ t)) := by
  simp [spaced]

lemma readWords_spaced (ws : List CStr) (h : ∀ w ∈ ws, PlainWord w) {t : CStr} (ht : SpaceOrEnd t) :
    readWords ws.length (spaced ws ++ t) = some (ws, t) := by
  induction ws with
  | nil => rfl
  | cons w ws ih =>
    have hspace : SpaceOrEnd (spaced ws ++ t) := by
      cases ws with
      | nil => exact ht
      | cons => exact spaceOrEnd_cons
    have hword := word_of_plainWord (h w List.mem_cons_self) hspace
    rw [spaced_cons, List.length_cons, (readWords_succ hword).2,
      ih fun w hw => h w (List.mem_cons_of_mem _ hw)]
    rfl

/-- Words that are read in two parts. -/
lemma readWords_append {m n : ℕ} {input r : CStr} {ws : List CStr}
    (h : readWords m input = some (ws, r)) :
    readWords (m + n) input = (readWords n r).map fun p => (ws ++ p.1, p.2) := by
  induction m generalizing input ws with
  | zero =>
    obtain ⟨rfl, rfl⟩ := Prod.mk.inj (Option.some.inj h)
    simp
  | succ m ih =>
    rw [show m + 1 + n = m + n + 1 from Nat.add_right_comm m 1 n, readWords]
    rw [readWords] at h
    cases hw : word (input.dropWhile isBlank) with
    | none =>
      rw [hw] at h
      cases h
    | some p =>
      rw [hw] at h
      cases hws : readWords m p.2 with
      | none =>
        simp [hws] at h
      | some q =>
        obtain ⟨rfl, rfl⟩ : p.1 :: q.1 = ws ∧ q.2 = r := by simpa [hws] using h
        simp only [Option.bind_eq_bind, Option.bind_some, ih hws]
        cases readWords n q.2 <;> rfl

/-- A second space before a word makes no difference. -/
lemma readWords_space (n : ℕ) (input : CStr) :
    readWords (n + 1) (' ' :: input) = readWords (n + 1) input := by
  rw [readWords, readWords, List.dropWhile_cons_of_pos (by decide)]

lemma addText_eq (configFile : CStr) (chroot : Bool) :
    addText configFile chroot = spaced (addWords configFile chroot) := by
  unfold addText addWords configPairs pairWords spaced
  split <;> split <;> simp

lemma options_words (l : Launch) : l.options =
    spaced (pairWords (pairs l)) ++ ' ' :: (l.add ++ " 2>&1".toList) := by
  have hsecurity : " -security ".toList = ' ' :: ("-security".toList ++ [' ']) := rfl
  have hhost : " -host ".toList = ' ' :: ("-host".toList ++ [' ']) := rfl
  have hport : " -port ".toList = ' ' :: ("-port".toList ++ [' ']) := rfl
  have hunique : " -unique ".toList = ' ' :: ("-unique".toList ++ [' ']) := rfl
  have htimeout : " -sock-read-timeout ".toList =
    ' ' :: ("-sock-read-timeout".toList ++ [' ']) := rfl
  have hdelay : " -sock-read-delay ".toList = ' ' :: ("-sock-read-delay".toList ++ [' ']) := rfl
  have huid : " -uid ".toList = ' ' :: ("-uid".toList ++ [' ']) := rfl
  have hgid : " -gid ".toList = ' ' :: ("-gid".toList ++ [' ']) := rfl
  unfold Launch.options pairs pairWords
  simp only [hsecurity, hhost, hport, hunique, htimeout, hdelay, huid, hgid]
  simp only [List.append_assoc]
  simp only [List.cons_append]
  simp only [List.append_assoc]
  simp only [List.cons_append, List.nil_append]
  simp only [List.flatMap_cons, List.flatMap_nil, List.cons_append, List.nil_append, spaced_cons]
  rfl

section Launch

variable {l : Launch} {cmd workdir configFile : CStr} {chroot : Bool}

lemma Readable.value {w : CStr} (h : Readable l cmd workdir configFile chroot)
    (hw : w ∈ [l.lrvm, cmd, workdir, l.securityHash, l.host, l.sockReadTimeout, l.sockReadDelay,
      configFile]) : w ∉ optionNames := h.values w hw

/-- The whole line is passed on. -/
lemma Readable.commandLine (h : Readable l cmd workdir configFile chroot) :
    l.commandLine cmd workdir =
      some (l.beforeWorkdir (prepareCmdarg cmd) ++ prepareCmdarg workdir ++ l.options) := by
  have hfits := h.fits
  have hargs : (prepareCmdarg cmd).length < runCmdLen ∧
      (prepareCmdarg workdir).length < runCmdLen := by
    rw [List.length_append, List.length_append, Launch.beforeWorkdir, List.length_append,
      List.length_append] at hfits
    omega
  rw [Launch.commandLine, if_pos hargs, List.take_of_length_le (by omega)]

/-- The words before the options. -/
lemma Readable.readWords_start (h : Readable l cmd workdir configFile chroot) :
    readWords 5 (l.beforeWorkdir (prepareCmdarg cmd) ++ prepareCmdarg workdir ++ l.options) =
      some ([l.lrvm, "-cmd".toList, cmd, "-workdir".toList, workdir], l.options) := by
  obtain ⟨u, hu⟩ := options_eq l
  have hline : l.beforeWorkdir (prepareCmdarg cmd) ++ prepareCmdarg workdir ++ l.options =
      l.beforeCmd ++ prepareCmdarg cmd ++
        ' ' :: ("-workdir".toList ++ ' ' :: (prepareCmdarg workdir ++ l.options)) := by
    simp [Launch.beforeWorkdir]
  have hcmd := (word_prepareCmdarg_iff (t := ' ' :: ("-workdir".toList ++ ' ' ::
    (prepareCmdarg workdir ++ l.options))) spaceOrEnd_cons).2 h.quotable.1
  have hname := word_of_plainWord plainWord_workdir
    (t := ' ' :: (prepareCmdarg workdir ++ l.options)) spaceOrEnd_cons
  have hworkdir := (word_prepareCmdarg_iff (hu ▸ spaceOrEnd_cons)).2 h.quotable.2
  rw [hline]
  refine (readWords_line (h.plain _ List.mem_cons_self) 3).trans ?_
  rw [(readWords_succ hcmd).2, (readWords_succ hname).2, (readWords_succ hworkdir).2]
  rfl

lemma Readable.plainPairs (h : Readable l cmd workdir configFile chroot) :
    ∀ w ∈ pairWords (pairs l), PlainWord w := by
  have hport : PlainWord (decimal l.port) :=
    plainWord_numeral Nat.toDigits_ne_nil fun c hc => .inl (isDigit_of_mem_decimal hc)
  have hlong (x : ℤ) : PlainWord (printLong x) :=
    plainWord_numeral (printLong_ne_nil x) fun c hc => mem_printLong hc
  have hnames (w : CStr) (hw : w ∈ optionNames) : PlainWord w := plainWord_name hw
  have hplain := h.plain
  simp only [List.forall_mem_cons] at hplain
  simp only [pairs, pairWords, List.flatMap_cons, List.flatMap_nil, List.cons_append,
    List.nil_append, List.forall_mem_cons]
  refine ⟨hnames _ (by decide), hplain.2.1, hnames _ (by decide), hplain.2.2.1,
    hnames _ (by decide), hport, hnames _ (by decide), hlong _, hnames _ (by decide),
    hplain.2.2.2.1, hnames _ (by decide), hplain.2.2.2.2.1, hnames _ (by decide), hlong _,
    hnames _ (by decide), hlong _, List.forall_mem_nil _⟩

/-- The words behind the options. -/
lemma Readable.readWords_add (h : Readable l cmd workdir configFile chroot) :
    ∃ rest, readWords (addWords configFile chroot).length (' ' :: (l.add ++ " 2>&1".toList)) =
        some (addWords configFile chroot, rest) ∧ rest.dropWhile isBlank = "2>&1".toList := by
  have hplain : ∀ w ∈ addWords configFile chroot, PlainWord w := by
    intro w hw
    unfold addWords at hw
    rcases List.mem_append.1 hw with hw | hw
    · unfold configPairs at hw
      split at hw
      · rename_i hne
        have hname : "-config-file".toList ∈ optionNames := by decide
        rcases List.mem_pair.1 hw with rfl | rfl
        · exact plainWord_name hname
        · exact h.config hne
      · cases hw
    · split at hw
      · rw [List.mem_singleton.1 hw]
        exact plainWord_name (by decide)
      · cases hw
  have hredirect : SpaceOrEnd " 2>&1".toList := fun c hc => (Option.some.inj hc).symm
  have hwords := readWords_spaced _ hplain hredirect
  rw [h.add, addText_eq]
  cases hadd : addWords configFile chroot with
  | nil => exact ⟨' ' :: " 2>&1".toList, rfl, by decide⟩
  | cons w ws =>
    rw [hadd] at hwords
    rw [List.length_cons, readWords_space, ← List.length_cons, hwords]
    exact ⟨_, rfl, by decide⟩

/-- The shell reads the words that LRVM is to be started with. -/
lemma Readable.readWords (h : Readable l cmd workdir configFile chroot) :
    ∃ rest, readWords (launchWords l cmd workdir configFile chroot).length
        (l.beforeWorkdir (prepareCmdarg cmd) ++ prepareCmdarg workdir ++ l.options) =
      some (launchWords l cmd workdir configFile chroot, rest) ∧
        rest.dropWhile isBlank = "2>&1".toList := by
  obtain ⟨rest, hadd, hrest⟩ := h.readWords_add
  have hoptions := readWords_spaced _ h.plainPairs
    (t := ' ' :: (l.add ++ " 2>&1".toList)) spaceOrEnd_cons
  rw [← options_words] at hoptions
  refine ⟨rest, ?_, hrest⟩
  have hlength : (launchWords l cmd workdir configFile chroot).length =
      5 + ((pairWords (pairs l)).length + (addWords configFile chroot).length) := by
    rw [launchWords, List.length_append, ← Nat.add_assoc]
    rfl
  rw [hlength, readWords_append h.readWords_start, readWords_append hoptions, hadd]
  rfl

lemma length_pairWords (ps : List (CStr × CStr)) :
    (pairWords ps).length = ps.length + ps.length := by
  induction ps with
  | nil => rfl
  | cons p ps ih =>
    have hcons : (pairWords (p :: ps)).length = (pairWords ps).length + 2 := rfl
    rw [hcons, ih, List.length_cons]
    omega

lemma Stored.append {ps qs : List (CStr × CStr)} {o o' o'' : Options} (h : Stored ps o o')
    (h' : Stored qs o' o'') : Stored (ps ++ qs) o o'' := by
  induction h with
  | nil o => exact h'
  | cons e he hv hfits _ ih => exact .cons e he hv hfits (ih h')

/-- What is stored of the options that are always there. -/
lemma Readable.stored (h : Readable l cmd workdir configFile chroot) (o : Options) :
    Stored (givenPairs l cmd workdir) o
      { launchOptions l cmd workdir configFile chroot with
        configFile := o.configFile, useChroot := o.useChroot } := by
  have hfits := h.fits
  have hcmd : cmd.length < 4096 ∧ workdir.length < 4096 := by
    rw [List.length_append, length_beforeWorkdir] at hfits
    unfold quotedLength runCmdLen at hfits
    omega
  have hlong (x : ℤ) : printLong x ∉ optionNames := numeral_notMem fun c hc => mem_printLong hc
  have hport : decimal l.port ∉ optionNames :=
    numeral_notMem fun c hc => .inl (isDigit_of_mem_decimal hc)
  have hsize {v : CStr} {n : ℕ} (hlt : v.length < n) : ∀ k ∈ some n, v.length < k := by
    rintro k hk
    rwa [← Option.some.inj hk]
  have hatoi : atoi (decimal l.port) = l.port := by
    have hlt := h.port
    rw [atoi, atol_decimal (by omega), toInt_natCast hlt]
  refine .cons .cmd (by simp [entries]) (h.value (by simp)) (hsize hcmd.1) ?_
  refine .cons .workdir (by simp [entries]) (h.value (by simp)) (hsize hcmd.2) ?_
  refine .cons .security (by simp [entries]) (h.value (by simp)) (hsize h.security) ?_
  refine .cons .host (by simp [entries]) (h.value (by simp)) (hsize h.host) ?_
  refine .cons .port (by simp [entries]) hport (by rintro _ ⟨⟩) ?_
  refine .cons .unique (by simp [entries]) (hlong _) (hsize h.unique) ?_
  refine .cons .sockReadTimeout (by simp [entries]) (h.value (by simp)) (by rintro _ ⟨⟩) ?_
  refine .cons .sockReadDelay (by simp [entries]) (h.value (by simp)) (by rintro _ ⟨⟩) ?_
  refine .cons .uid (by simp [entries]) (hlong _) (by rintro _ ⟨⟩) ?_
  refine .cons .gid (by simp [entries]) (hlong _) (by rintro _ ⟨⟩) ?_
  have hnil {o o' : Options} (heq : o = o') : Stored [] o o' := heq ▸ .nil o
  apply hnil
  apply Options.ext
  case port => exact hatoi
  case uid => exact atol_printLong h.uid.1 h.uid.2
  case gid => exact atol_printLong h.gid.1 h.gid.2
  all_goals rfl

/-- The file with the configuration, if it is given. -/
lemma Readable.stored_config (h : Readable l cmd workdir configFile chroot) (o : Options) :
    Stored (configPairs configFile) o
      { o with configFile := if configFile ≠ [] then configFile else o.configFile } := by
  unfold configPairs
  split
  · rename_i hne
    refine .cons .configFile (by simp [entries]) (h.value (by simp)) ?_ (.nil _)
    have hlength := h.addLength
    rintro n hn
    rw [addText, if_pos hne, List.length_append, List.length_append] at hlength
    rw [← Option.some.inj hn]
    omega
  · exact .nil _

end Launch

/-- LRVM reads from its arguments what the server has put into the command line. -/
theorem readOptions_commandLine {l : Launch} {cmd workdir configFile : CStr} {chroot : Bool}
    (h : Readable l cmd workdir configFile chroot) (security host unique : CStr) :
    ∃ line ws rest, l.commandLine cmd workdir = some line ∧
      readWords ws.length line = some (ws, rest) ∧ rest.dropWhile isBlank = "2>&1".toList ∧
      readOptions ws (.initial security host unique) =
        some (launchOptions l cmd workdir configFile chroot) := by
  obtain ⟨rest, hwords, hrest⟩ := h.readWords
  refine ⟨_, _, rest, h.commandLine, hwords, hrest, ?_⟩
  have hstored := (h.stored (.initial security host unique)).append (h.stored_config _)
  have hargs : launchWords l cmd workdir configFile chroot = l.lrvm ::
      (pairWords (givenPairs l cmd workdir ++ configPairs configFile) ++
        if chroot then ["-chroot".toList] else []) := by
    rw [launchWords, addWords, pairWords, pairWords, pairWords, List.flatMap_append,
      List.append_assoc, List.cons_append]
  rw [hargs, readOptions]
  generalize givenPairs l cmd workdir ++ configPairs configFile = ps at hstored
  rw [List.length_cons, argLoop_succ (argBody_of_notMem (h.value (by simp))), List.length_append,
    length_pairWords, Nat.add_assoc, hstored.argLoop]
  cases chroot with
  | false => exact argLoop_nil _
  | true => exact (argLoop_succ argBody_chroot).trans (argLoop_nil _)

/-- A solution in a directory of its own, with a configuration and with `chroot`. -/
lemma readable_sampleLaunch :
    Readable { sampleLaunch with add := addText "/etc/lrvm.conf".toList true }
      "./solution (1)".toList "/tmp/run".toList "/etc/lrvm.conf".toList true where
  add := rfl
  quotable := ⟨quotable_of_all (by decide) (by decide) (by decide),
    quotable_of_all (by decide) (by decide) (by decide)⟩
  plain := by
    have hplain {w : CStr} (hstart : Starts w) (h : w.all ordinary = true) : PlainWord w :=
      ⟨hstart, List.all_eq_true.1 h⟩
    simp only [List.forall_mem_cons]
    exact ⟨plainWord_sampleLaunch,
      hplain ⟨'5', rfl, by decide, by decide, by decide⟩ (by decide),
      hplain ⟨'l', rfl, by decide, by decide, by decide⟩ (by decide),
      hplain ⟨'2', rfl, by decide, by decide, by decide⟩ (by decide),
      hplain ⟨'0', rfl, by decide, by decide, by decide⟩ (by decide), List.forall_mem_nil _⟩
  config _ := ⟨⟨'/', rfl, by decide, by decide, by decide⟩, List.all_eq_true.1 (by decide)⟩
  values := by decide
  security := by decide
  host := by decide
  unique := by decide
  addLength := by decide
  port := by decide
  uid := by decide
  gid := by decide
  fits := by decide +kernel

theorem readOptions_commandLine_chroot :
    ∃ line ws rest, ({ sampleLaunch with
        add := addText "/etc/lrvm.conf".toList true } : Launch).commandLine
          "./solution (1)".toList "/tmp/run".toList = some line ∧
      readWords ws.length line = some (ws, rest) ∧ rest.dropWhile isBlank = "2>&1".toList ∧
      readOptions ws (.initial [] [] []) = some (launchOptions
        { sampleLaunch with add := addText "/etc/lrvm.conf".toList true }
        "./solution (1)".toList "/tmp/run".toList "/etc/lrvm.conf".toList true) :=
  readOptions_commandLine readable_sampleLaunch [] [] []

end WebTester.Librun.LrvmOptions
