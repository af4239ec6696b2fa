import WebTester.Assoc
import WebTester.Hive
import WebTester.Scanf
import WebTester.Transition
import WebTester.UnlinkDir

/-!
# The log and its rotation

When the log has grown too large it is copied to a file with a number, which a thread packs, and a
new log is begun. Only so many numbers are kept: the oldest log is deleted and the others move down.
`printed` records what has ever been written to the log; the program does not. There is no name that
a buffer cuts, the directory of the log exists, and what is written and copied is there. A packer
may fail. A log is packed between two calls of `log_printf`, not during one.
-/
namespace WebTester.LogRotation
open CString Flexval Scanf Transition

/-- The regular files, by their full names. -/
abbrev Files := List (CStr × CStr)

/-! ## Names -/

/-- What is behind the last `c`; without one the first character is skipped. -/
def afterLast (c : Char) (s : CStr) : CStr :=
  if c ∈ s then (s.reverse.takeWhile (· ≠ c)).reverse else s.tail

def fname (full : CStr) : CStr := afterLast '/' full

def getextension (fn : CStr) : CStr := afterLast '.' fn

def dropextension (fn : CStr) : CStr := if '.' ∈ fn then fn.takeWhile (· ≠ '.') else []

/-! ## Files -/

def fexists (files : Files) (p : CStr) : Bool := (files.lookup p).isSome

def rename (src dst : CStr) (files : Files) : Files :=
  match files.lookup src with
  | none => files
  | some c => Assoc.put dst c (Assoc.remove src files)

def copyfile (src dst : CStr) (files : Files) : Files :=
  match files.lookup src with
  | none => files
  | some c => Assoc.put dst c files

/-- The name that a path has in a directory. -/
def entryName (dir p : CStr) : Option CStr :=
  if dir ++ ['/'] <+: p then
    let name := p.drop (dir.length + 1)
    if name ≠ [] ∧ '/' ∉ name then some name else none
  else none

def scandir (files : Files) (dir : CStr) : List CStr :=
  Fs.alphasort (['.'] :: ['.', '.'] :: files.filterMap fun e => entryName dir e.1)

/-! ## Numbered names -/

/-- What `sscanf` says. -/
inductive Scanned
  | mismatch
  | eof
  | long (n : ℤ)
  deriving DecidableEq, Repr

/-- `%ld`. -/
def scanLong (name : CStr) : Scanned :=
  if name.dropWhile isSpace = [] then .eof
  else match scanNumber name with
    | none => .mismatch
    | some (n, _) => .long (clampLong n)

/-- `sscanf` with a text and `%ld`. What comes behind the number is not counted. -/
def scanEntry : CStr → CStr → Scanned
  | [], name => scanLong name
  | _ :: _, [] => .eof
  | c :: pref, d :: name => if c = d then scanEntry pref name else .mismatch

/-- The body of the loop of `flastid_entry`; the number is that of the name before where this one is
too short, and there is none at first. -/
def flastidStep (pref : CStr) (s : ℤ × Option ℤ) (name : CStr) : Option (ℤ × Option ℤ) :=
  match scanEntry pref name with
  | .mismatch => some s
  | .eof => s.2.map fun n => (max s.1 n, some n)
  | .long n => some (max s.1 n, some n)

def flastidEntry (files : Files) (dir pref suff : CStr) : Option ℤ :=
  ((scandir files dir).foldlM (flastidStep (pref ++ ['.'])) (-1, none)).map fun s =>
    if fexists files (dir ++ '/' :: (pref ++ printLong s.1 ++ suff)) then s.1 + 1 else s.1

def numbered (dir pref : CStr) (id : ℤ) (suff : CStr) : CStr :=
  dir ++ '/' :: (pref ++ '.' :: (printLong id ++ '.' :: suff))

def fdupDeleteIterator (dir pref : CStr) (id : ℤ) (suff : CStr) (files : Files) : Files :=
  Assoc.remove (numbered dir pref id suff) files

def fdupMoveDownIterator (dir pref : CStr) (id : ℤ) (suff : CStr) (files : Files) : Files :=
  rename (numbered dir pref id suff) (numbered dir pref (id - 1) suff) files

/-- The loop of `fdup` over the numbers from 1 on. -/
def moveDown (dir pref suff : CStr) (count : ℕ) (files : Files) : Files :=
  (List.range count).foldl (fun files (i : ℕ) =>
    fdupDeleteIterator dir pref (i + 1 : ℕ) suff
      (fdupMoveDownIterator dir pref (i + 1 : ℕ) suff files)) files

def fdup (fn addExt : CStr) (count : ℕ) (files : Files) : Option (Files × CStr) :=
  let dir := Hive.dirname fn
  let pref := dropextension (fname fn)
  let realExt := getextension fn
  let ext := realExt ++ addExt
  (flastidEntry files dir pref ext).map fun id =>
    let r := if (count : ℤ) - 1 ≤ id then
        (moveDown dir pref ext count (fdupDeleteIterator dir pref 0 ext files), id)
      else (files, id + 1)
    let dummy := numbered dir pref r.2 realExt
    (copyfile fn dummy r.1, dummy)

/-! ## The log -/

/-- `MAX_LOG_SIZE`, `MAX_LOG_FILES`, the name of the log and the packer. -/
structure Config where
  dir : CStr
  name : CStr
  ext : CStr
  version : CStr
  maxLogSize : ℕ
  maxLogFiles : ℕ
  bzip2 : CStr → CStr
  dir_ne : dir ≠ []
  name_plain : '/' ∉ name ∧ '.' ∉ name
  ext_plain : '/' ∉ ext ∧ '.' ∉ ext
  maxLogFiles_pos : 0 < maxLogFiles
  maxLogFiles_lt : maxLogFiles < 2 ^ 31

structure State where
  files : Files
  putTimestamp : Bool
  packing : List CStr
  printed : CStr

/-- `LOG_PACKED_EXT`, which is that of `bzip2` as well. -/
def logPackedExt : CStr := ".bz2".toList

/-- `pack_file`, with `bzip2 ${file}` for `LOG_PACKER`: a packed file that is there is not
overwritten. -/
def packFile (bzip2 : CStr → CStr) (fn : CStr) (files : Files) : Files :=
  match files.lookup fn with
  | none => files
  | some c =>
    if fexists files (fn ++ logPackedExt) then files
    else Assoc.put (fn ++ logPackedExt) (bzip2 c) (Assoc.remove fn files)

def banner (version : CStr) : CStr :=
  let line := List.replicate 91 '<'
  line ++ '\n' :: version ++ '\n' :: line ++ ['\n', '\n']

namespace Config

variable (cfg : Config)

def filename : CStr := cfg.dir ++ '/' :: (cfg.name ++ '.' :: cfg.ext)

/-- A log with a number, before it is packed. -/
def copied (i : ℕ) : CStr := numbered cfg.dir cfg.name i cfg.ext

def packed (i : ℕ) : CStr := numbered cfg.dir cfg.name i (cfg.ext ++ logPackedExt)

end Config

namespace State

variable (cfg : Config)

/-- The stream appends. -/
def write (text : CStr) (s : State) : State :=
  { s with
    files := Assoc.put cfg.filename ((s.files.lookup cfg.filename).getD [] ++ text) s.files
    printed := s.printed ++ text }

def logfileOpen (s : State) : State :=
  s.write cfg (if fexists s.files cfg.filename then ['\n', '\n'] else banner cfg.version)

def logfilePack (s : State) : Option State :=
  (fdup cfg.filename logPackedExt cfg.maxLogFiles s.files).map fun r =>
    { s with files := Assoc.remove cfg.filename r.1, packing := s.packing ++ [r.2] }

def tooLarge (s : State) : Bool :=
  cfg.maxLogSize < ((s.files.lookup cfg.filename).getD []).length

def checkSize (s : State) : Option State :=
  if s.tooLarge cfg then (s.logfilePack cfg).map (logfileOpen cfg) else some s

/-- `log_init`. -/
def logInit (files : Files) : State :=
  logfileOpen cfg ⟨files, true, [], (files.lookup cfg.filename).getD []⟩

/-- The text in the log, before its size is looked at. -/
def put (timestamp text : CStr) (s : State) : State :=
  let text := text.take 4095
  let s := s.write cfg (if s.putTimestamp then '[' :: timestamp ++ [']', ' '] ++ text else text)
  { s with putTimestamp := text.getLast? = some '\n' }

/-- `log_printf`, which reads before its buffer where there is no text. -/
def logPrintf (timestamp text : CStr) (s : State) : Option State :=
  if text = [] then none else (s.put cfg timestamp text).checkSize cfg

end State

inductive Event
  | printf (timestamp text : CStr)
  | packed (fn : CStr)
  | failed (fn : CStr)

/-- The server prints, or a thread ends: it has packed its file, or there is no packer in the
configuration or the packer has failed, and the file is what it was. -/
def State.next (cfg : Config) (s : State) : Event → Option State
  | .printf timestamp text => s.logPrintf cfg timestamp text
  | .packed fn =>
    if fn ∈ s.packing then
      some { s with files := packFile cfg.bzip2 fn s.files, packing := s.packing.erase fn }
    else none
  | .failed fn =>
    if fn ∈ s.packing then some { s with packing := s.packing.erase fn } else none

/-- The last number is taken. -/
def State.full (cfg : Config) (s : State) : Bool :=
  fexists s.files (cfg.copied (cfg.maxLogFiles - 1)) ||
    fexists s.files (cfg.packed (cfg.maxLogFiles - 1))

/-- No thread is left, and none has failed. -/
def State.AllPacked (cfg : Config) (s : State) : Prop :=
  s.packing = [] ∧ ∀ i < cfg.maxLogFiles, fexists s.files (cfg.copied i) = false

instance (cfg : Config) (s : State) : Decidable (s.AllPacked cfg) :=
  inferInstanceAs (Decidable (_ ∧ _))

/-- Every log is packed when the logs move down. -/
def Quiet (cfg : Config) (s : State) : Event → Prop
  | .printf timestamp text =>
    s.full cfg = true → (s.put cfg timestamp text).tooLarge cfg = true → s.AllPacked cfg
  | .packed _ | .failed _ => True

instance (cfg : Config) (s : State) : ∀ e, Decidable (Quiet cfg s e)
  | .printf .. => inferInstanceAs (Decidable (_ → _ → _))
  | .packed _ | .failed _ => inferInstanceAs (Decidable True)

/-- At the start no name in the directory of the log is like that of a log with a number, or, for
the name that is looked for behind the last number, without the points around it. -/
structure Fresh (cfg : Config) (files : Files) : Prop where
  scan : ∀ name ∈ scandir files cfg.dir, scanEntry (cfg.name ++ ['.']) name = .mismatch
  undotted : ∀ id, fexists files
    (cfg.dir ++ '/' :: (cfg.name ++ printLong id ++ (cfg.ext ++ logPackedExt))) = false

/-! ## Reading names back -/

section Names

variable {a b dir pref suff suff' name p : CStr} {c : Char} {files : Files} {i j : ℤ}

/-- A text ends before a character that is not in it. -/
theorem takeWhile_ne (h : c ∉ a) : (a ++ c :: b).takeWhile (· ≠ c) = a ∧
    (a ++ c :: b).dropWhile (· ≠ c) = c :: b := by
  refine takeWhile_append_stop (fun d hd => ?_) fun d hd => ?_
  · have hne : d ≠ c := by
      rintro rfl
      exact h hd
    simpa using hne
  · cases hd
    simp

theorem afterLast_append (h : c ∉ b) : afterLast c (a ++ c :: b) = b := by
  have hmem : c ∈ a ++ c :: b := by simp
  have hstop : (b.reverse ++ c :: a.reverse).takeWhile (· ≠ c) = b.reverse :=
    (takeWhile_ne fun hc => h (List.mem_reverse.1 hc)).1
  rw [afterLast, if_pos hmem, List.reverse_append, List.reverse_cons, List.append_assoc,
    List.singleton_append, hstop, List.reverse_reverse]

theorem dirname_append (h : '/' ∉ b) : Hive.dirname (a ++ '/' :: b) = a := by
  have hstop : (b.reverse ++ '/' :: a.reverse).dropWhile (· ≠ '/') = '/' :: a.reverse :=
    (takeWhile_ne fun hc => h (List.mem_reverse.1 hc)).2
  rw [Hive.dirname, List.reverse_append, List.reverse_cons, List.append_assoc,
    List.singleton_append, hstop, List.tail_cons, List.reverse_reverse]

theorem dropextension_append (h : '.' ∉ a) : dropextension (a ++ '.' :: b) = a := by
  rw [dropextension, if_pos (by simp), (takeWhile_ne h).1]

theorem stops_point : Stops ('.' :: suff) := stops_cons (by decide)

theorem printLong_ne_nil (i : ℤ) : printLong i ≠ [] := by
  rw [printLong]
  split
  · exact List.cons_ne_nil _ _
  · exact decimal_ne_nil _

/-- A number ends before the point behind it. -/
theorem printLong_injective (h : printLong i ++ '.' :: suff = printLong j ++ '.' :: suff') :
    i = j ∧ suff = suff' := by
  have hscan := congrArg scanNumber h
  rw [scanNumber_printLong i stops_point, scanNumber_printLong j stops_point] at hscan
  simpa using hscan

theorem numbered_injective (h : numbered dir pref i suff = numbered dir pref j suff') :
    i = j ∧ suff = suff' := by
  rw [numbered, numbered] at h
  have hbehind := List.append_cancel_left h
  rw [List.cons.injEq] at hbehind
  have hpoint := List.append_cancel_left hbehind.2
  rw [List.cons.injEq] at hpoint
  exact printLong_injective hpoint.2

theorem numbered_inj {m n : ℕ} (h : numbered dir pref m suff = numbered dir pref n suff') : m = n :=
  Int.ofNat.inj (numbered_injective h).1

theorem scanEntry_append (pref name : CStr) : scanEntry pref (pref ++ name) = scanLong name := by
  induction pref with
  | nil => rfl
  | cons c pref ih =>
    show (if c = c then scanEntry pref (pref ++ name) else .mismatch) = scanLong name
    rw [if_pos rfl, ih]

/-- The number of a name is found. -/
theorem scanEntry_numbered (pref suff : CStr) (n : ℕ) :
    scanEntry (pref ++ ['.']) (pref ++ '.' :: (printLong n ++ '.' :: suff)) =
      .long (clampLong n) := by
  have hne : (printLong n ++ '.' :: suff).dropWhile isSpace ≠ [] := by
    intro h
    have hspace := List.dropWhile_eq_nil_iff.1 h '.' (by simp)
    exact absurd hspace (by decide)
  rw [List.append_cons pref '.' (_ ++ _), scanEntry_append, scanLong, if_neg hne,
    scanNumber_printLong _ stops_point]

theorem entryName_append (hne : name ≠ []) (h : '/' ∉ name) :
    entryName dir (dir ++ '/' :: name) = some name := by
  have hdrop : (dir ++ '/' :: name).drop (dir.length + 1) = name := by
    rw [List.append_cons, List.drop_left' (by simp)]
  rw [entryName, if_pos ⟨name, by simp⟩]
  dsimp only
  rw [hdrop, if_pos ⟨hne, h⟩]

theorem eq_of_entryName (h : entryName dir p = some name) :
    p = dir ++ '/' :: name ∧ name ≠ [] ∧ '/' ∉ name := by
  rw [entryName] at h
  split at h
  · rename_i hpref
    obtain ⟨t, rfl⟩ := hpref
    dsimp only at h
    rw [List.drop_left' (by simp)] at h
    split at h <;> cases h
    rename_i hname
    exact ⟨by simp, hname⟩
  · cases h

theorem lookup_ne_none_iff : files.lookup p ≠ none ↔ ∃ c, (p, c) ∈ files := by
  constructor
  · intro h
    obtain ⟨c, hc⟩ := Option.ne_none_iff_exists'.1 h
    exact ⟨c, Assoc.mem_of_lookup hc⟩
  · rintro ⟨c, hc⟩ h
    have hne := List.lookup_eq_none_iff.1 h (p, c) hc
    simp at hne

theorem mem_scandir_iff : name ∈ scandir files dir ↔ name = ['.'] ∨ name = ['.', '.'] ∨
    name ≠ [] ∧ '/' ∉ name ∧ files.lookup (dir ++ '/' :: name) ≠ none := by
  rw [scandir, Fs.alphasort, List.mem_insertionSort, List.mem_cons, List.mem_cons,
    List.mem_filterMap, lookup_ne_none_iff]
  refine or_congr_right (or_congr_right ?_)
  constructor
  · rintro ⟨⟨p, c⟩, hp, hname⟩
    obtain ⟨rfl, hne, hslash⟩ := eq_of_entryName hname
    exact ⟨hne, hslash, c, hp⟩
  · rintro ⟨hne, hslash, c, hp⟩
    exact ⟨_, hp, entryName_append hne hslash⟩

/-- The greatest number is found where every name has a number or none at all. -/
theorem foldlM_flastidStep {names : List CStr} {m : ℤ} {s : ℤ × Option ℤ} (hs : s.1 ≤ m)
    (h : ∀ name ∈ names, scanEntry pref name = .mismatch ∨
      ∃ n, n ≤ m ∧ scanEntry pref name = .long n)
    (hm : s.1 = m ∨ ∃ name ∈ names, scanEntry pref name = .long m) :
    ∃ n, names.foldlM (flastidStep pref) s = some (m, n) := by
  induction names generalizing s with
  | nil =>
    obtain rfl := hm.resolve_right (by simp)
    exact ⟨s.2, rfl⟩
  | cons name names ih =>
    have hrest := fun name' hname' => h name' (List.mem_cons_of_mem name hname')
    rw [List.foldlM_cons]
    rcases h name List.mem_cons_self with hno | ⟨n, hn, hlong⟩
    · have hstep : flastidStep pref s name = some s := by rw [flastidStep, hno]
      rw [hstep]
      refine ih hs hrest (hm.imp_right ?_)
      rintro ⟨name', hname', hlong⟩
      refine ⟨name', (List.mem_cons.1 hname').resolve_left ?_, hlong⟩
      rintro rfl
      rw [hno] at hlong
      cases hlong
    · have hstep : flastidStep pref s name = some (max s.1 n, some n) := by rw [flastidStep, hlong]
      rw [hstep]
      refine ih (s := (max s.1 n, some n)) (by dsimp only; omega) hrest ?_
      by_cases heq : max s.1 n = m
      · exact .inl heq
      · right
        obtain ⟨name', hname', hlong'⟩ := hm.resolve_left (by omega)
        refine ⟨name', (List.mem_cons.1 hname').resolve_left ?_, hlong'⟩
        rintro rfl
        rw [hlong] at hlong'
        cases hlong'
        omega

end Names

/-! ## Moving down -/

section Moving

variable {files : Files} {src dst dir pref suff p : CStr}

theorem lookup_rename (hdst : files.lookup dst = none) :
    (rename src dst files).lookup p =
      if p = dst then files.lookup src else if p = src then none else files.lookup p := by
  rw [rename]
  cases hsrc : files.lookup src with
  | none =>
    dsimp only
    split
    · rename_i hp
      rw [hp, hdst]
    · split
      · rename_i hp
        rw [hp, hsrc]
      · rfl
  | some c => rw [Assoc.lookup_put, Assoc.lookup_remove]

theorem moveDown_succ (k : ℕ) : moveDown dir pref suff (k + 1) files =
    fdupDeleteIterator dir pref (k + 1 : ℕ) suff
      (fdupMoveDownIterator dir pref (k + 1 : ℕ) suff (moveDown dir pref suff k files)) := by
  rw [moveDown, List.range_succ, List.foldl_append]
  rfl

/-- One turn moves a log into the place before it, which is free. -/
theorem lookup_turn (k : ℕ) (hfree : files.lookup (numbered dir pref k suff) = none) (p : CStr) :
    (fdupDeleteIterator dir pref (k + 1 : ℕ) suff
        (fdupMoveDownIterator dir pref (k + 1 : ℕ) suff files)).lookup p =
      if p = numbered dir pref (k + 1 : ℕ) suff then none
      else if p = numbered dir pref k suff then
        files.lookup (numbered dir pref (k + 1 : ℕ) suff)
      else files.lookup p := by
  have hback : ((k + 1 : ℕ) : ℤ) - 1 = k := by omega
  rw [fdupDeleteIterator, fdupMoveDownIterator, hback, Assoc.lookup_remove, lookup_rename hfree]
  split
  · rfl
  · split
    · rfl
    · rfl

/-- After so many turns. -/
theorem lookup_moveDown (count : ℕ) (hzero : files.lookup (numbered dir pref 0 suff) = none) :
    (∀ j : ℕ, (moveDown dir pref suff count files).lookup (numbered dir pref j suff) =
      if j < count then files.lookup (numbered dir pref (j + 1 : ℕ) suff)
      else if j = count then none else files.lookup (numbered dir pref j suff)) ∧
    ∀ p, (∀ j : ℕ, p ≠ numbered dir pref j suff) →
      (moveDown dir pref suff count files).lookup p = files.lookup p := by
  induction count with
  | zero =>
    refine ⟨fun j => ?_, fun p _ => rfl⟩
    rw [if_neg (Nat.not_lt_zero j)]
    split
    · rename_i hj
      rw [hj]
      exact hzero
    · rfl
  | succ k ih =>
    have hfree : (moveDown dir pref suff k files).lookup (numbered dir pref k suff) = none := by
      rw [ih.1, if_neg (Nat.lt_irrefl k), if_pos rfl]
    refine ⟨fun j => ?_, fun p hp => ?_⟩
    · rw [moveDown_succ, lookup_turn k hfree]
      by_cases hlast : j = k + 1
      · rw [if_pos (by rw [hlast]), if_neg (by omega), if_pos hlast]
      · rw [if_neg fun h => hlast (numbered_inj h)]
        by_cases hj : j = k
        · rw [if_pos (by rw [hj]), if_pos (by omega), ih.1, if_neg (by omega), if_neg (by omega),
            hj]
        · rw [if_neg fun h => hj (numbered_inj h), ih.1]
          by_cases hlt : j < k
          · rw [if_pos hlt, if_pos (by omega)]
          · rw [if_neg hlt, if_neg hj, if_neg (by omega), if_neg hlast]
    · rw [moveDown_succ, lookup_turn k hfree, if_neg (hp (k + 1)), if_neg (hp k)]
      exact ih.2 p hp

end Moving

/-- The other files stay when one is packed. -/
theorem lookup_packFile {bzip2 : CStr → CStr} {fn p : CStr} {files : Files} (hp : p ≠ fn)
    (hpacked : p ≠ fn ++ logPackedExt) :
    (packFile bzip2 fn files).lookup p = files.lookup p := by
  rw [packFile]
  split
  · rfl
  · split
    · rfl
    · rw [Assoc.lookup_put, if_neg hpacked, Assoc.lookup_remove, if_neg hp]

/-! ## The names of a log -/

namespace Config

variable (cfg : Config) {i j : ℕ}

theorem packed_eq (i : ℕ) : cfg.packed i = cfg.copied i ++ logPackedExt := by
  rw [packed, copied, numbered, numbered]
  simp

theorem copied_injective (h : cfg.copied i = cfg.copied j) : i = j := numbered_inj h

theorem packed_injective (h : cfg.packed i = cfg.packed j) : i = j := numbered_inj h

theorem copied_ne_packed (i j : ℕ) : cfg.copied i ≠ cfg.packed j := by
  intro h
  have hlength := congrArg List.length (numbered_injective h).2
  rw [List.length_append] at hlength
  have hpos : logPackedExt.length = 4 := rfl
  omega

/-- The extension of the log has no point. -/
theorem filename_ne_numbered (i : ℤ) (suff : CStr) :
    cfg.filename ≠ numbered cfg.dir cfg.name i suff := by
  intro h
  rw [filename, numbered] at h
  have hbehind := List.append_cancel_left h
  rw [List.cons.injEq] at hbehind
  have hpoint := List.append_cancel_left hbehind.2
  rw [List.cons.injEq] at hpoint
  refine cfg.ext_plain.2 ?_
  rw [hpoint.2]
  simp

theorem slash_packed : '/' ∉ cfg.ext ++ logPackedExt := by
  rw [List.mem_append]
  rintro (h | h)
  · exact cfg.ext_plain.1 h
  · exact absurd h (by decide)

/-- A name with a number is in the directory itself. -/
theorem slash_numbered (i : ℕ) {suff : CStr} (h : '/' ∉ suff) :
    '/' ∉ cfg.name ++ '.' :: (printLong i ++ '.' :: suff) := by
  have hprint : '/' ∉ printLong i := notMem_printLong (by decide) (by decide) i
  have hname := cfg.name_plain.1
  simp [hprint, hname, h]

theorem slash_filename : '/' ∉ cfg.name ++ '.' :: cfg.ext := by
  rw [List.mem_append, List.mem_cons]
  rintro (h | h | h)
  · exact cfg.name_plain.1 h
  · cases h
  · exact cfg.ext_plain.1 h

theorem dirname_filename : Hive.dirname cfg.filename = cfg.dir := dirname_append cfg.slash_filename

theorem dropextension_fname : dropextension (fname cfg.filename) = cfg.name := by
  rw [fname, filename, afterLast_append cfg.slash_filename]
  exact dropextension_append cfg.name_plain.2

theorem getextension_filename : getextension cfg.filename = cfg.ext := by
  have hassoc : cfg.filename = (cfg.dir ++ '/' :: cfg.name) ++ '.' :: cfg.ext := by
    rw [filename]
    simp
  rw [getextension, hassoc]
  exact afterLast_append cfg.ext_plain.2

/-- The name behind the last number is looked for without its points. -/
theorem undotted_ne (id : ℤ) (t u : CStr) :
    cfg.dir ++ '/' :: (cfg.name ++ printLong id ++ t) ≠
      cfg.dir ++ '/' :: (cfg.name ++ '.' :: u) := by
  intro h
  have hbehind := List.append_cancel_left h
  rw [List.cons.injEq, List.append_assoc] at hbehind
  have hnumber := List.append_cancel_left hbehind.2
  obtain ⟨c, cs, hc⟩ := List.exists_cons_of_ne_nil (printLong_ne_nil id)
  rw [hc, List.cons_append, List.cons.injEq] at hnumber
  have hpoint : '.' ∉ printLong id := notMem_printLong (by decide) (by decide) id
  rw [hc, hnumber.1] at hpoint
  simp at hpoint

end Config

/-! ## What is kept -/

/-- Where log `i` is, if it is kept: it is not packed, or it is. -/
def Config.Stored (cfg : Config) (s : State) (i : ℕ) : Option CStr → Prop
  | none => s.files.lookup (cfg.copied i) = none ∧ s.files.lookup (cfg.packed i) = none
  | some c =>
    s.files.lookup (cfg.copied i) = some c ∧ s.files.lookup (cfg.packed i) = none ∨
      s.files.lookup (cfg.copied i) = none ∧ s.files.lookup (cfg.packed i) = some (cfg.bzip2 c)

/-- The logs with numbers are `kept`, and only the log and these are not what they were. -/
structure Kept (cfg : Config) (start : Files) (s : State) (kept : List CStr) : Prop where
  length : kept.length ≤ cfg.maxLogFiles
  stored : ∀ i, cfg.Stored s i kept[i]?
  busy : ∀ fn ∈ s.packing, ∃ i, fn = cfg.copied i
  others : ∀ p, p ≠ cfg.filename → (∀ i, p ≠ cfg.copied i ∧ p ≠ cfg.packed i) →
    s.files.lookup p = start.lookup p

namespace Kept

variable {cfg : Config} {start : Files} {s t : State} {kept : List CStr} {c : CStr}

theorem copied_ne_filename (cfg : Config) (i : ℕ) : cfg.copied i ≠ cfg.filename :=
  (cfg.filename_ne_numbered i _).symm

theorem packed_ne_filename (cfg : Config) (i : ℕ) : cfg.packed i ≠ cfg.filename :=
  (cfg.filename_ne_numbered i _).symm

/-- Nothing is stored elsewhere. -/
theorem stored_congr {i : ℕ} {o : Option CStr} (h : cfg.Stored s i o)
    (hcopied : t.files.lookup (cfg.copied i) = s.files.lookup (cfg.copied i))
    (hpacked : t.files.lookup (cfg.packed i) = s.files.lookup (cfg.packed i)) :
    cfg.Stored t i o := by
  cases o with
  | none => exact ⟨hcopied.trans h.1, hpacked.trans h.2⟩
  | some c =>
    rcases h with ⟨h₁, h₂⟩ | ⟨h₁, h₂⟩
    · exact .inl ⟨hcopied.trans h₁, hpacked.trans h₂⟩
    · exact .inr ⟨hcopied.trans h₁, hpacked.trans h₂⟩

theorem stored_of_packed {i : ℕ} {o : Option CStr} (hcopied : s.files.lookup (cfg.copied i) = none)
    (hpacked : s.files.lookup (cfg.packed i) = o.map cfg.bzip2) : cfg.Stored s i o := by
  cases o with
  | none => exact ⟨hcopied, hpacked⟩
  | some c => exact .inr ⟨hcopied, hpacked⟩

/-- The log itself is no log with a number. -/
theorem congr (h : Kept cfg start s kept) (hpacking : t.packing ⊆ s.packing)
    (hfiles : ∀ p, p ≠ cfg.filename → t.files.lookup p = s.files.lookup p) :
    Kept cfg start t kept where
  length := h.length
  stored i := stored_congr (h.stored i) (hfiles _ (copied_ne_filename cfg i))
    (hfiles _ (packed_ne_filename cfg i))
  busy fn hfn := h.busy fn (hpacking hfn)
  others p hp hnumbered := (hfiles p hp).trans (h.others p hp hnumbered)

/-- Another log comes. -/
theorem snoc (h : Kept cfg start s kept) (hlt : kept.length < cfg.maxLogFiles) (c : CStr) :
    Kept cfg start { s with
      files := Assoc.put (cfg.copied kept.length) c s.files
      packing := s.packing ++ [cfg.copied kept.length] } (kept ++ [c]) where
  length := by
    rw [List.length_append]
    exact hlt
  stored i := by
    by_cases hi : i = kept.length
    · subst hi
      have hfree := h.stored kept.length
      rw [List.getElem?_eq_none (Nat.le_refl _)] at hfree
      rw [List.getElem?_append_right (Nat.le_refl _), Nat.sub_self]
      refine .inl ⟨?_, ?_⟩
      · rw [Assoc.lookup_put, if_pos rfl]
      · rw [Assoc.lookup_put, if_neg (cfg.copied_ne_packed _ _).symm]
        exact hfree.2
    · have hsame : (kept ++ [c])[i]? = kept[i]? := by
        rcases Nat.lt_or_ge i kept.length with hlt | hge
        · exact List.getElem?_append_left hlt
        · rw [List.getElem?_eq_none hge, List.getElem?_eq_none]
          rw [List.length_append, List.length_singleton]
          omega
      rw [hsame]
      refine stored_congr (h.stored i) ?_ ?_
      · rw [Assoc.lookup_put, if_neg fun hc => hi (cfg.copied_injective hc)]
      · rw [Assoc.lookup_put, if_neg (cfg.copied_ne_packed _ _).symm]
  busy fn hfn := by
    rcases List.mem_append.1 hfn with hold | hnew
    · exact h.busy fn hold
    · exact ⟨kept.length, List.mem_singleton.1 hnew⟩
  others p hp hnumbered := by
    rw [Assoc.lookup_put, if_neg (hnumbered kept.length).1]
    exact h.others p hp hnumbered

theorem stored_of_allPacked (h : Kept cfg start s kept) (hall : s.AllPacked cfg) (i : ℕ) :
    s.files.lookup (cfg.copied i) = none ∧
      s.files.lookup (cfg.packed i) = kept[i]?.map cfg.bzip2 := by
  have hi := h.stored i
  cases hkept : kept[i]? with
  | none =>
    rw [hkept] at hi
    exact hi
  | some c =>
    rw [hkept] at hi
    rcases hi with ⟨hcopied, -⟩ | hi
    · have hlt : i < kept.length := (List.getElem?_eq_some_iff.1 hkept).1
      have hgone := hall.2 i (Nat.lt_of_lt_of_le hlt h.length)
      rw [fexists, hcopied] at hgone
      cases hgone
    · exact hi

/-- The oldest log goes. -/
theorem moveDown (h : Kept cfg start s kept) (hfull : kept.length = cfg.maxLogFiles)
    (hall : s.AllPacked cfg) :
    Kept cfg start { s with
      files := LogRotation.moveDown cfg.dir cfg.name (cfg.ext ++ logPackedExt) cfg.maxLogFiles
        (fdupDeleteIterator cfg.dir cfg.name 0 (cfg.ext ++ logPackedExt) s.files) } kept.tail := by
  have hzero : (fdupDeleteIterator cfg.dir cfg.name 0 (cfg.ext ++ logPackedExt) s.files).lookup
      (numbered cfg.dir cfg.name 0 (cfg.ext ++ logPackedExt)) = none := by
    rw [fdupDeleteIterator, Assoc.lookup_remove, if_pos rfl]
  obtain ⟨hpacked, hothers⟩ := lookup_moveDown cfg.maxLogFiles hzero
  have hdeleted : ∀ p, p ≠ cfg.packed 0 →
      (fdupDeleteIterator cfg.dir cfg.name 0 (cfg.ext ++ logPackedExt) s.files).lookup p =
        s.files.lookup p := fun p hp => by
    rw [fdupDeleteIterator, Assoc.lookup_remove]
    exact if_neg hp
  refine ⟨?_, fun i => ?_, ?_, fun p hp hnumbered => ?_⟩
  · rw [List.length_tail]
    have hle := h.length
    omega
  · have hcopied := hothers (cfg.copied i) fun j => cfg.copied_ne_packed i j
    rw [hdeleted _ (cfg.copied_ne_packed i 0), (h.stored_of_allPacked hall i).1] at hcopied
    have hkept : ∀ j, j ≠ 0 →
        (fdupDeleteIterator cfg.dir cfg.name 0 (cfg.ext ++ logPackedExt) s.files).lookup
          (cfg.packed j) = kept[j]?.map cfg.bzip2 := fun j hj =>
      (hdeleted _ fun heq => hj (cfg.packed_injective heq)).trans (h.stored_of_allPacked hall j).2
    refine stored_of_packed hcopied ((hpacked i).trans ?_)
    rw [List.getElem?_tail]
    split
    · exact hkept (i + 1) (Nat.succ_ne_zero i)
    · rw [List.getElem?_eq_none (by omega), Option.map_none]
      split
      · rfl
      · refine (hkept i fun hi => ?_).trans ?_
        · have hpos := cfg.maxLogFiles_pos
          omega
        · rw [List.getElem?_eq_none (by omega), Option.map_none]
  · exact h.busy
  · exact (hothers p fun j => (hnumbered j).2).trans
      ((hdeleted p (hnumbered 0).2).trans (h.others p hp hnumbered))

/-- The log stays where it is. -/
theorem lookup_log (cfg : Config) (files : Files) :
    (LogRotation.moveDown cfg.dir cfg.name (cfg.ext ++ logPackedExt) cfg.maxLogFiles
      (fdupDeleteIterator cfg.dir cfg.name 0 (cfg.ext ++ logPackedExt) files)).lookup cfg.filename =
      files.lookup cfg.filename := by
  have hzero : (fdupDeleteIterator cfg.dir cfg.name 0 (cfg.ext ++ logPackedExt) files).lookup
      (numbered cfg.dir cfg.name 0 (cfg.ext ++ logPackedExt)) = none := by
    rw [fdupDeleteIterator, Assoc.lookup_remove, if_pos rfl]
  refine ((lookup_moveDown cfg.maxLogFiles hzero).2 _ fun j => ?_).trans ?_
  · exact cfg.filename_ne_numbered j _
  · rw [fdupDeleteIterator, Assoc.lookup_remove, if_neg (cfg.filename_ne_numbered 0 _)]

/-- When a thread has ended its log is packed, or it has been before. -/
theorem packFile_stored {i : ℕ} {o : Option CStr} (h : cfg.Stored s i o) :
    (LogRotation.packFile cfg.bzip2 (cfg.copied i) s.files).lookup (cfg.copied i) = none ∧
      (LogRotation.packFile cfg.bzip2 (cfg.copied i) s.files).lookup (cfg.packed i) =
        o.map cfg.bzip2 := by
  have hgone : s.files.lookup (cfg.copied i) = none →
      LogRotation.packFile cfg.bzip2 (cfg.copied i) s.files = s.files := fun hcopied => by
    rw [LogRotation.packFile, hcopied]
  cases o with
  | none =>
    rw [hgone h.1]
    exact h
  | some c =>
    rcases h with ⟨hcopied, hfree⟩ | ⟨hcopied, hpacked⟩
    · have hfiles : LogRotation.packFile cfg.bzip2 (cfg.copied i) s.files =
          Assoc.put (cfg.packed i) (cfg.bzip2 c) (Assoc.remove (cfg.copied i) s.files) := by
        rw [LogRotation.packFile, hcopied]
        dsimp only
        rw [← cfg.packed_eq, fexists, hfree, if_neg (by simp)]
      rw [hfiles]
      constructor
      · rw [Assoc.lookup_put, if_neg (cfg.copied_ne_packed i i), Assoc.lookup_remove, if_pos rfl]
      · rw [Assoc.lookup_put, if_pos rfl, Option.map_some]
    · rw [hgone hcopied]
      exact ⟨hcopied, hpacked⟩

theorem packFile (h : Kept cfg start s kept) (i : ℕ) :
    Kept cfg start { s with
      files := LogRotation.packFile cfg.bzip2 (cfg.copied i) s.files
      packing := s.packing.erase (cfg.copied i) } kept := by
  have hsame : ∀ p, p ≠ cfg.copied i → p ≠ cfg.packed i →
      (LogRotation.packFile cfg.bzip2 (cfg.copied i) s.files).lookup p = s.files.lookup p := by
    intro p hp hpacked
    rw [cfg.packed_eq] at hpacked
    exact lookup_packFile hp hpacked
  refine ⟨h.length, fun j => ?_, fun fn hfn => h.busy fn (List.mem_of_mem_erase hfn),
    fun p hp hnumbered => ?_⟩
  · by_cases hj : j = i
    · subst hj
      obtain ⟨hcopied, hpacked⟩ := packFile_stored (h.stored j)
      exact stored_of_packed hcopied hpacked
    · have hother : cfg.copied j ≠ cfg.copied i := fun heq => hj (cfg.copied_injective heq)
      refine stored_congr (h.stored j) ?_ ?_
      · exact hsame _ hother (cfg.copied_ne_packed j i)
      · exact hsame _ (cfg.copied_ne_packed i j).symm fun heq => hj (cfg.packed_injective heq)
  · exact (hsame p (hnumbered i).1 (hnumbered i).2).trans (h.others p hp hnumbered)

/-- A name in the directory has the number of a log that is kept, or none. -/
theorem scan (h : Kept cfg start s kept) (hfresh : Fresh cfg start)
    (hstart : start.lookup cfg.filename ≠ none) {name : CStr}
    (hname : name ∈ scandir s.files cfg.dir) :
    scanEntry (cfg.name ++ ['.']) name = .mismatch ∨
      ∃ n : ℕ, n < kept.length ∧ scanEntry (cfg.name ++ ['.']) name = .long n := by
  have hold : name ∈ scandir start cfg.dir →
      scanEntry (cfg.name ++ ['.']) name = .mismatch ∨
        ∃ n : ℕ, n < kept.length ∧ scanEntry (cfg.name ++ ['.']) name = .long n :=
    fun hmem => .inl (hfresh.scan name hmem)
  have hnew : ∀ (i : ℕ) (suff : CStr), (s.files.lookup (cfg.copied i) ≠ none ∨
      s.files.lookup (cfg.packed i) ≠ none) →
      cfg.dir ++ '/' :: name = numbered cfg.dir cfg.name i suff →
      ∃ n : ℕ, n < kept.length ∧ scanEntry (cfg.name ++ ['.']) name = .long n := by
    intro i suff hfile heq
    have hlt : i < kept.length := by
      refine Nat.lt_of_not_le fun hge => ?_
      have hi := h.stored i
      rw [List.getElem?_eq_none hge] at hi
      exact hfile.elim (fun hc => hc hi.1) fun hp => hp hi.2
    refine ⟨i, hlt, ?_⟩
    rw [numbered] at heq
    have hbehind := List.append_cancel_left heq
    rw [List.cons.injEq] at hbehind
    rw [hbehind.2, scanEntry_numbered]
    have hle := h.length
    have hmax := cfg.maxLogFiles_lt
    rw [clampLong]
    congr 1
    omega
  rcases mem_scandir_iff.1 hname with hdot | hdots | ⟨hne, hslash, hfile⟩
  · exact hold (mem_scandir_iff.2 (.inl hdot))
  · exact hold (mem_scandir_iff.2 (.inr (.inl hdots)))
  by_cases hlog : cfg.dir ++ '/' :: name = cfg.filename
  · exact hold (mem_scandir_iff.2 (.inr (.inr ⟨hne, hslash, by rw [hlog]; exact hstart⟩)))
  by_cases hnumbered : ∀ i, cfg.dir ++ '/' :: name ≠ cfg.copied i ∧
      cfg.dir ++ '/' :: name ≠ cfg.packed i
  · rw [h.others _ hlog hnumbered] at hfile
    exact hold (mem_scandir_iff.2 (.inr (.inr ⟨hne, hslash, hfile⟩)))
  · push Not at hnumbered
    obtain ⟨i, hi⟩ := hnumbered
    by_cases hcopied : cfg.dir ++ '/' :: name = cfg.copied i
    · rw [hcopied] at hfile
      exact .inr (hnew i _ (.inl hfile) hcopied)
    · have hpacked := hi hcopied
      rw [hpacked] at hfile
      exact .inr (hnew i _ (.inr hfile) hpacked)

/-- The last log that is kept is seen in the directory. -/
theorem exists_last (h : Kept cfg start s kept) {k : ℕ} (hk : k + 1 = kept.length) :
    ∃ name ∈ scandir s.files cfg.dir, scanEntry (cfg.name ++ ['.']) name = .long k := by
  have hnumber : clampLong k = k := by
    have hle := h.length
    have hmax := cfg.maxLogFiles_lt
    rw [clampLong]
    omega
  have hmem : ∀ suff, '/' ∉ suff → s.files.lookup (numbered cfg.dir cfg.name k suff) ≠ none →
      ∃ name ∈ scandir s.files cfg.dir, scanEntry (cfg.name ++ ['.']) name = .long k := by
    intro suff hsuff hfile
    refine ⟨cfg.name ++ '.' :: (printLong k ++ '.' :: suff), ?_, ?_⟩
    · exact mem_scandir_iff.2 (.inr (.inr ⟨by simp, cfg.slash_numbered k hsuff, hfile⟩))
    · rw [scanEntry_numbered, hnumber]
  have hi := h.stored k
  rw [List.getElem?_eq_getElem (by omega)] at hi
  rcases hi with ⟨hcopied, -⟩ | ⟨-, hpacked⟩
  · refine hmem cfg.ext cfg.ext_plain.1 fun hnone => ?_
    rw [Config.copied, hnone] at hcopied
    cases hcopied
  · refine hmem (cfg.ext ++ logPackedExt) cfg.slash_packed fun hnone => ?_
    rw [Config.packed, hnone] at hpacked
    cases hpacked

theorem flastidEntry_eq (h : Kept cfg start s kept) (hfresh : Fresh cfg start)
    (hstart : start.lookup cfg.filename ≠ none) :
    flastidEntry s.files cfg.dir cfg.name (cfg.ext ++ logPackedExt) =
      some ((kept.length : ℤ) - 1) := by
  obtain ⟨n, hn⟩ : ∃ n, (scandir s.files cfg.dir).foldlM (flastidStep (cfg.name ++ ['.']))
      (-1, none) = some ((kept.length : ℤ) - 1, n) := by
    refine foldlM_flastidStep (by dsimp only; omega) (fun name hname => ?_) ?_
    · refine (h.scan hfresh hstart hname).imp_right ?_
      rintro ⟨n, hlt, hlong⟩
      exact ⟨n, by omega, hlong⟩
    · cases hk : kept.length with
      | zero => exact .inl rfl
      | succ k =>
        obtain ⟨name, hname, hlong⟩ := h.exists_last hk.symm
        refine .inr ⟨name, hname, ?_⟩
        rw [hlong]
        congr 1
        omega
  have hundotted : fexists s.files (cfg.dir ++ '/' ::
      (cfg.name ++ printLong ((kept.length : ℤ) - 1) ++ (cfg.ext ++ logPackedExt))) = false := by
    rw [fexists, h.others]
    · exact hfresh.undotted _
    · exact cfg.undotted_ne _ _ _
    · exact fun i => ⟨cfg.undotted_ne _ _ _, cfg.undotted_ne _ _ _⟩
  rw [flastidEntry, hn, Option.map_some]
  dsimp only
  rw [hundotted, if_neg (by simp)]

/-- A rotation. -/
theorem logfilePack (h : Kept cfg start s kept) (hfresh : Fresh cfg start)
    (hstart : start.lookup cfg.filename ≠ none) (hlog : s.files.lookup cfg.filename = some c)
    (hquiet : kept.length = cfg.maxLogFiles → s.AllPacked cfg) :
    ∃ gone rest t, kept = gone ++ rest ∧ (gone ≠ [] → rest.length + 1 = cfg.maxLogFiles) ∧
      (kept.length = cfg.maxLogFiles → rest.length + 1 = cfg.maxLogFiles) ∧
      s.logfilePack cfg = some t ∧ Kept cfg start t (rest ++ [c]) ∧
      t.files.lookup cfg.filename = none ∧ t.printed = s.printed := by
  have hid := h.flastidEntry_eq hfresh hstart
  have hend : ∀ {u : State} {l : List CStr}, Kept cfg start u l → l.length < cfg.maxLogFiles →
      u.files.lookup cfg.filename = some c →
      Kept cfg start { u with
        files := Assoc.remove cfg.filename (copyfile cfg.filename (cfg.copied l.length) u.files)
        packing := u.packing ++ [cfg.copied l.length] } (l ++ [c]) := by
    intro u l hu hlt hc
    refine (hu.snoc hlt c).congr (List.Subset.refl _) fun p hp => ?_
    dsimp only
    rw [Assoc.lookup_remove, if_neg hp, copyfile, hc]
  have hremoved : ∀ files : Files, (Assoc.remove cfg.filename files).lookup cfg.filename = none :=
    fun files => by rw [Assoc.lookup_remove, if_pos rfl]
  rw [State.logfilePack, fdup, cfg.dirname_filename, cfg.dropextension_fname,
    cfg.getextension_filename, hid]
  dsimp only [Option.map_some]
  rcases Nat.lt_or_ge kept.length cfg.maxLogFiles with hlt | hge
  · rw [if_neg (by omega)]
    have hnumber : ((kept.length : ℤ) - 1) + 1 = (kept.length : ℕ) := by omega
    dsimp only
    rw [hnumber]
    refine ⟨[], kept, _, rfl, fun hne => absurd rfl hne, fun heq => by omega, rfl, ?_, ?_, rfl⟩
    · exact hend h hlt hlog
    · exact hremoved _
  · have hfull : kept.length = cfg.maxLogFiles := Nat.le_antisymm h.length hge
    have hpos := cfg.maxLogFiles_pos
    have htail : kept.tail.length + 1 = cfg.maxLogFiles := by
      rw [List.length_tail]
      omega
    rw [if_pos (by omega)]
    have hnumber : ((kept.length : ℤ) - 1) = (kept.tail.length : ℕ) := by
      rw [List.length_tail]
      omega
    dsimp only
    rw [hnumber]
    refine ⟨kept.take 1, kept.tail, _, ?_, fun _ => htail, fun _ => htail, rfl, ?_, ?_, rfl⟩
    · cases kept <;> rfl
    · exact hend (h.moveDown hfull (hquiet hfull)) (by omega) ((lookup_log cfg s.files).trans hlog)
    · exact hremoved _

end Kept

/-! ## Runs -/

/-- What was printed is in the logs that are gone, in those that are kept and in the log. -/
structure Inv (cfg : Config) (start : Files) (s : State) (gone kept : List CStr) (current : CStr) :
    Prop where
  held : Kept cfg start s kept
  full : gone ≠ [] → kept.length = cfg.maxLogFiles
  log : s.files.lookup cfg.filename = some current
  printed : s.printed = (gone ++ kept).flatten ++ current

section Runs

variable {cfg : Config} {files start : Files} {s t : State} {gone kept : List CStr}
  {current : CStr}

theorem lookup_write (cfg : Config) (text : CStr) (s : State) :
    (s.write cfg text).files.lookup cfg.filename =
      some ((s.files.lookup cfg.filename).getD [] ++ text) := by
  rw [State.write, Assoc.lookup_put, if_pos rfl]

theorem Kept.write (h : Kept cfg start s kept) (text : CStr) :
    Kept cfg start (s.write cfg text) kept :=
  h.congr (List.Subset.refl _) fun p hp => by rw [State.write, Assoc.lookup_put, if_neg hp]

theorem Inv.write (h : Inv cfg start s gone kept current) (text : CStr) :
    Inv cfg start (s.write cfg text) gone kept (current ++ text) where
  held := h.held.write text
  full := h.full
  log := by rw [lookup_write, h.log, Option.getD_some]
  printed := by
    rw [State.write, h.printed, List.append_assoc]

theorem Inv.put (h : Inv cfg start s gone kept current) (timestamp text : CStr) :
    ∃ current', Inv cfg start (s.put cfg timestamp text) gone kept current' := by
  have hwritten := h.write (if s.putTimestamp then '[' :: timestamp ++ [']', ' '] ++ text.take 4095
    else text.take 4095)
  exact ⟨_, hwritten.held.congr (List.Subset.refl _) fun _ _ => rfl, hwritten.full, hwritten.log,
    hwritten.printed⟩

/-- A full directory shows in the last number. -/
theorem Kept.full (h : Kept cfg start s kept) (hfull : kept.length = cfg.maxLogFiles) :
    s.full cfg = true := by
  have hpos := cfg.maxLogFiles_pos
  have hlast := h.stored (cfg.maxLogFiles - 1)
  rw [List.getElem?_eq_getElem (by omega)] at hlast
  rw [State.full, fexists, fexists]
  rcases hlast with ⟨hcopied, -⟩ | ⟨-, hpacked⟩
  · rw [hcopied]
    rfl
  · rw [hpacked, Bool.or_eq_true]
    exact .inr rfl

theorem Inv.checkSize (h : Inv cfg start s gone kept current) (hfresh : Fresh cfg start)
    (hstart : start.lookup cfg.filename ≠ none)
    (hquiet : s.full cfg = true → s.tooLarge cfg = true → s.AllPacked cfg)
    (ht : s.checkSize cfg = some t) : ∃ gone kept current, Inv cfg start t gone kept current := by
  rw [State.checkSize] at ht
  split at ht
  · rename_i hlarge
    obtain ⟨away, rest, u, hkept, haway, hrest, hu, hmoved, hlog, hprinted⟩ :=
      h.held.logfilePack hfresh hstart h.log fun hfull => hquiet (h.held.full hfull) hlarge
    rw [hu, Option.map_some] at ht
    cases ht
    have hopen : u.logfileOpen cfg = u.write cfg (banner cfg.version) := by
      rw [State.logfileOpen, fexists, hlog]
      rfl
    rw [hopen]
    refine ⟨gone ++ away, rest ++ [current], banner cfg.version, hmoved.write _, fun hne => ?_, ?_,
      ?_⟩
    · rw [List.length_append, List.length_singleton]
      by_cases hgone : gone = []
      · rw [hgone, List.nil_append] at hne
        exact haway hne
      · exact hrest (h.full hgone)
    · rw [lookup_write, hlog, Option.getD_none, List.nil_append]
    · rw [State.write, hprinted, h.printed, hkept]
      simp
  · cases ht
    exact ⟨gone, kept, current, h⟩

theorem Inv.next (h : Inv cfg start s gone kept current) (hfresh : Fresh cfg start)
    (hstart : start.lookup cfg.filename ≠ none) {e : Event} (hquiet : Quiet cfg s e)
    (ht : s.next cfg e = some t) : ∃ gone kept current, Inv cfg start t gone kept current := by
  cases e with
  | printf timestamp text =>
    rw [State.next, State.logPrintf] at ht
    split at ht
    · cases ht
    obtain ⟨current', hput⟩ := h.put timestamp text
    refine hput.checkSize hfresh hstart (fun hfull hlarge => ?_) ht
    -- what is written is not in the files with numbers
    have hother : ∀ p, p ≠ cfg.filename →
        (s.put cfg timestamp text).files.lookup p = s.files.lookup p := fun p hp => by
      show ((s.write cfg _).files).lookup p = s.files.lookup p
      rw [State.write, Assoc.lookup_put, if_neg hp]
    rw [State.full, fexists, fexists, hother _ (Kept.copied_ne_filename cfg _),
      hother _ (Kept.packed_ne_filename cfg _)] at hfull
    obtain ⟨hpacking, hall⟩ := hquiet hfull hlarge
    refine ⟨hpacking, fun i hi => ?_⟩
    rw [fexists, hother _ (Kept.copied_ne_filename cfg i)]
    exact hall i hi
  | packed fn =>
    rw [State.next] at ht
    split at ht
    · rename_i hfn
      cases ht
      obtain ⟨i, rfl⟩ := h.held.busy fn hfn
      refine ⟨gone, kept, current, h.held.packFile i, h.full, ?_, h.printed⟩
      refine (lookup_packFile (Kept.copied_ne_filename cfg i).symm ?_).trans h.log
      rw [← cfg.packed_eq]
      exact (Kept.packed_ne_filename cfg i).symm
    · cases ht
  | failed fn =>
    rw [State.next] at ht
    split at ht <;> cases ht
    exact ⟨gone, kept, current, h.held.congr List.erase_subset fun _ _ => rfl, h.full, h.log,
      h.printed⟩

/-- At the start there is no log with a number. -/
theorem kept_logInit (hfresh : Fresh cfg (State.logInit cfg files).files) :
    Kept cfg (State.logInit cfg files).files (State.logInit cfg files) [] := by
  have hfree : ∀ (i : ℕ) (suff : CStr), '/' ∉ suff →
      (State.logInit cfg files).files.lookup (numbered cfg.dir cfg.name i suff) = none := by
    intro i suff hsuff
    by_contra hfile
    have hscan := hfresh.scan _
      (mem_scandir_iff.2 (.inr (.inr ⟨by simp, cfg.slash_numbered i hsuff, hfile⟩)))
    rw [scanEntry_numbered] at hscan
    cases hscan
  refine ⟨Nat.zero_le _, fun i => ⟨hfree i _ cfg.ext_plain.1, hfree i _ cfg.slash_packed⟩,
    fun fn hfn => ?_, fun p _ _ => rfl⟩
  cases hfn

end Runs

/-- In every run from such a start in which every log is packed when the logs have to move down,
nothing that was printed is lost but whole logs, the oldest ones, and these only where the number of
logs is the greatest; every log that is kept has its number, packed or not, and no other file is
touched. -/
theorem rotation_run (cfg : Config) (files : Files) (es : List Event) (s : State)
    (hfresh : Fresh cfg (State.logInit cfg files).files)
    (hr : Run (Guarded (Quiet cfg) (StepOf (State.next cfg))) (State.logInit cfg files) es s) :
    ∃ gone kept current, Inv cfg (State.logInit cfg files).files s gone kept current := by
  have hstart : (State.logInit cfg files).files.lookup cfg.filename ≠ none := by
    rw [State.logInit, State.logfileOpen, lookup_write]
    exact Option.some_ne_none _
  refine hr.invariant (I := fun s => ∃ gone kept current,
    Inv cfg (State.logInit cfg files).files s gone kept current) ?_ ?_
  · rintro s e t ⟨gone, kept, current, hs⟩ ⟨hquiet, ht⟩
    exact hs.next hfresh hstart hquiet ht
  · exact ⟨[], [], _, kept_logInit hfresh, fun hne => absurd rfl hne, lookup_write cfg _ _, rfl⟩

/-- Every text makes this log too large. -/
def sample : Config where
  dir := "/l".toList
  name := "w".toList
  ext := "log".toList
  version := "1.0".toList
  maxLogSize := 100
  maxLogFiles := 2
  bzip2 text := "BZh9".toList ++ text
  dir_ne := by decide
  name_plain := by decide
  ext_plain := by decide
  maxLogFiles_pos := Nat.two_pos
  maxLogFiles_lt := by decide

/-- The third log needs the number of the second. -/
def threeLogs : List Event :=
  [.printf [] "a\n".toList, .printf [] "b\n".toList, .packed (sample.copied 1),
    .packed (sample.copied 0), .printf [] "c\n".toList, .failed (sample.copied 1)]

lemma threeLogs_isSome : (threeLogs.foldlM (restrict (Quiet sample) (State.next sample))
    (State.logInit sample [])).isSome := by
  decide +kernel

lemma fresh_sample : Fresh sample (State.logInit sample []).files where
  scan := by decide +kernel
  undotted id := by
    have hfiles : (State.logInit sample []).files =
        [(sample.filename, banner sample.version)] := rfl
    have hne := sample.undotted_ne id (sample.ext ++ logPackedExt) sample.ext
    rw [hfiles, fexists, Assoc.lookup_cons_ite]
    exact congrArg Option.isSome (if_neg hne)

theorem rotation_run_three : ∃ gone kept current,
    Inv sample (State.logInit sample []).files
      ((threeLogs.foldlM (restrict (Quiet sample) (State.next sample))
        (State.logInit sample [])).get threeLogs_isSome) gone kept current :=
  rotation_run sample [] threeLogs _ fresh_sample
    ((Run.get_foldlM _ _ threeLogs_isSome).mono fun _ _ _ h => stepOf_restrict.1 h)

example : ((threeLogs.foldlM (restrict (Quiet sample) (State.next sample))
    (State.logInit sample [])).get threeLogs_isSome).files.map Prod.fst =
      [sample.packed 0, sample.copied 1, sample.filename] := by
  decide +kernel

end WebTester.LogRotation
