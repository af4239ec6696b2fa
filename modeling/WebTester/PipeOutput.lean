import WebTester.CString

/-!
# The output of a process

The pipe to LRVM gives the number of its process, one character and what the process writes.
`proc_read_lrvm_pid` reads up to that character; `read_process_pipe` reads the rest through a buffer
of its own, which it appends to the buffer of the process whenever it is full. Lengths are kept in
an `int`. A negative size is a huge one for `malloc`, which returns `NULL`; what is written through
it, or behind the end of a block, has no result.
-/
namespace WebTester.Librun.PipeOutput
open CString

/-- `RUN_PIPE_READ_BUF_LEN`. -/
def runPipeReadBufLen : ℕ := 1024

/-- `pipe_buf`; `NULL` is no text. -/
structure PipeBuf where
  len : ℤ
  pchar : Option CStr
  deriving DecidableEq, Repr

/-- `FILE`: what was not read yet, `ferror` and `fileno`. -/
structure Stream where
  ahead : CStr
  ferror : Bool
  fileno : ℤ
  deriving DecidableEq, Repr

/-- The fields of `run_process_info_t` that are read or written. -/
structure Proc where
  pipe : Option Stream
  pipeBuf : PipeBuf
  lrvmPid : BitVec 32
  deriving DecidableEq, Repr

/-! ## Reading the number of the process -/

/-- The loop of `proc_read_lrvm_pid`: the number, and what is left behind the character that ends
it. -/
def readPid : CStr → BitVec 32 → BitVec 32 × CStr
  | [], pid => (pid, [])
  | c :: cs, pid =>
    if c.isDigit then readPid cs (pid * 10 + BitVec.ofNat 32 c.toNat - BitVec.ofNat 32 '0'.toNat)
    else (pid, cs)

/-- `proc_read_lrvm_pid`. -/
def procReadLrvmPid (p : Proc) : Proc :=
  match p.pipe with
  | none => p
  | some f =>
    let r := readPid f.ahead 0
    { p with pipe := some { f with ahead := r.2 }, lrvmPid := r.1 }

/-! ## Reading the rest -/

/-- `proc_append_pipe_buf`: the string in `buf` ends at the first NUL. -/
def procAppendPipeBuf (b : PipeBuf) (buf : CStr) : Option PipeBuf :=
  let s := buf.takeWhile (· ≠ '\x00')
  let text := b.pchar.getD [] ++ s
  let alen := toInt s.length
  let size := toInt (toInt (b.len + alen) + 1)
  if text.length < size then some ⟨toInt (b.len + alen), some text⟩ else none

/-- The loop of `read_process_pipe` with what is in its buffer, and what comes after the loop. -/
def readLoop : CStr → CStr → PipeBuf → Option PipeBuf
  | [], buf, b => if buf.length ≠ 0 then procAppendPipeBuf b buf else some b
  | c :: cs, buf, b =>
    let buf := buf ++ [c]
    if buf.length = runPipeReadBufLen - 1 then do
      let b ← procAppendPipeBuf b buf
      readLoop cs [] b
    else readLoop cs buf b

/-- `read_process_pipe`. -/
def readProcessPipe (p : Proc) : Option Proc :=
  match p.pipe with
  | none => some p
  | some f =>
    if f.ferror ∨ f.fileno ≤ 0 then some p
    else (readLoop f.ahead [] p.pipeBuf).map fun b =>
      { p with pipe := some { f with ahead := [] }, pipeBuf := b }

/-! ## What is expected -/

/-- A process whose pipe was just opened. -/
def opened (stream : CStr) (fileno : ℤ) : Proc := ⟨some ⟨stream, false, fileno⟩, ⟨0, none⟩, 0⟩

/-- The number of the process is the value of the digits, and the buffer has the rest with its
length, or is not set where there is none. -/
def Captured (digits rest : CStr) (p : Proc) : Prop :=
  ∃ q, readProcessPipe (procReadLrvmPid p) = some q ∧
    q.lrvmPid = BitVec.ofNat 32 (digitsValue digits) ∧
    q.pipeBuf = ⟨rest.length, if rest = [] then none else some rest⟩

variable {cs buf digits rest s : CStr} {b : PipeBuf} {c : Char}

/-! ## The number -/

lemma readPid_digits {read : CStr} (hdigits : ∀ d ∈ digits, d.isDigit = true)
    (hc : ¬c.isDigit = true) :
    readPid (digits ++ c :: rest) (BitVec.ofNat 32 (digitsValue read)) =
      (BitVec.ofNat 32 (digitsValue (read ++ digits)), rest) := by
  induction digits generalizing read with
  | nil => rw [List.nil_append, readPid, if_neg hc, List.append_nil]
  | cons d digits ih =>
    obtain ⟨hd, hdigits⟩ := List.forall_mem_cons.1 hdigits
    have hrange := Char.isDigit_iff_toNat.1 hd
    have hstep : BitVec.ofNat 32 (digitsValue read) * 10 + BitVec.ofNat 32 d.toNat -
        BitVec.ofNat 32 '0'.toNat = BitVec.ofNat 32 (digitsValue (read ++ [d])) := by
      obtain ⟨m, hm⟩ : ∃ m, d.toNat = '0'.toNat + m := ⟨d.toNat - '0'.toNat, by omega⟩
      rw [digitsValue_snoc, hm, Nat.add_sub_cancel_left, BitVec.ofNat_add, BitVec.ofNat_add,
        BitVec.ofNat_mul, BitVec.mul_comm, BitVec.add_comm (BitVec.ofNat 32 '0'.toNat),
        ← BitVec.add_assoc, BitVec.add_sub_cancel]
      rfl
    rw [List.cons_append, readPid, if_pos hd, hstep, ih hdigits, List.append_assoc]
    rfl

/-! ## The buffer -/

/-- The length is that of the text, and an `int` counts it with its NUL. -/
structure Fits (b : PipeBuf) : Prop where
  len : b.len = (b.pchar.getD []).length
  lt : (b.pchar.getD []).length + 1 < 2 ^ 31

/-- With a text behind what it has. -/
def PipeBuf.extend (b : PipeBuf) (s : CStr) : PipeBuf :=
  if s = [] then b else ⟨(b.pchar.getD [] ++ s).length, some (b.pchar.getD [] ++ s)⟩

lemma PipeBuf.extend_extend (b : PipeBuf) {s : CStr} (hs : s ≠ []) (t : CStr) :
    (b.extend s).extend t = b.extend (s ++ t) := by
  unfold PipeBuf.extend
  rw [if_neg hs, if_neg (List.append_ne_nil_of_left_ne_nil hs t)]
  by_cases ht : t = []
  · rw [if_pos ht, ht, List.append_nil]
  · rw [if_neg ht, Option.getD_some, List.append_assoc]

/-- A number that only an `unsigned int` holds. -/
lemma toInt_neg {n : ℕ} (hlo : 2 ^ 31 ≤ n) (hhi : n < 2 ^ 32) : toInt n < 0 := by
  rw [toInt_eq_emod, if_neg (by omega)]
  omega

/-- A piece that fits is appended. -/
lemma procAppendPipeBuf_eq (hb : Fits b) (hne : s ≠ []) (hnul : '\x00' ∉ s)
    (hlen : s.length < runPipeReadBufLen) :
    procAppendPipeBuf b s =
      if (b.pchar.getD [] ++ s).length + 1 < 2 ^ 31 then some (b.extend s) else none := by
  have hn : runPipeReadBufLen = 1024 := rfl
  have hlt := hb.lt
  have hstring : s.takeWhile (· ≠ '\x00') = s := by
    rw [List.takeWhile_eq_self_iff]
    intro c hc
    simpa using ne_of_mem_of_not_mem hc hnul
  have halen : toInt s.length = s.length := toInt_natCast (by omega)
  have hcast : ((b.pchar.getD []).length + s.length : ℤ) = (b.pchar.getD [] ++ s).length := by
    rw [List.length_append, Int.natCast_add]
  unfold procAppendPipeBuf PipeBuf.extend
  dsimp only
  rw [hstring, halen, hb.len, hcast, if_neg hne]
  by_cases hfits : (b.pchar.getD [] ++ s).length + 1 < 2 ^ 31
  · have hsum : toInt (b.pchar.getD [] ++ s).length = (b.pchar.getD [] ++ s).length :=
      toInt_natCast (by omega)
    have hsize : toInt ((b.pchar.getD [] ++ s).length + 1) =
        ((b.pchar.getD [] ++ s).length + 1 : ℕ) :=
      toInt_natCast hfits
    rw [hsum, hsize, if_pos (by omega), if_pos hfits]
  · -- the size has become negative
    have hlong : (b.pchar.getD [] ++ s).length < 2 ^ 32 - 1 := by
      rw [List.length_append]
      omega
    have hsize : toInt (toInt (b.pchar.getD [] ++ s).length + 1) < 0 := by
      rw [toInt, toInt, Int.bmod_add_bmod]
      exact @toInt_neg ((b.pchar.getD [] ++ s).length + 1) (by omega) (by omega)
    rw [if_neg (by omega), if_neg hfits]

lemma Fits.extend (h : Fits b) (hfits : (b.pchar.getD [] ++ s).length + 1 < 2 ^ 31) :
    Fits (b.extend s) := by
  unfold PipeBuf.extend
  split
  · exact h
  · exact ⟨rfl, hfits⟩

/-- The text of a buffer with a text behind it. -/
lemma PipeBuf.text_extend (b : PipeBuf) (s : CStr) :
    (b.extend s).pchar.getD [] = b.pchar.getD [] ++ s := by
  unfold PipeBuf.extend
  split
  · next hs => rw [hs, List.append_nil]
  · rfl

/-- The loop appends all that is to be read, or leaves a block on the way. -/
lemma readLoop_eq (hb : Fits b) (hnul : '\x00' ∉ buf ++ cs)
    (hbuf : buf.length < runPipeReadBufLen - 1) :
    readLoop cs buf b =
      if (b.pchar.getD [] ++ (buf ++ cs)).length + 1 < 2 ^ 31 then some (b.extend (buf ++ cs))
      else none := by
  induction cs generalizing buf b with
  | nil =>
    rw [List.append_nil] at hnul ⊢
    by_cases hne : buf = []
    · subst hne
      rw [List.append_nil, if_pos hb.lt]
      rfl
    · rw [readLoop, if_pos (by simpa using hne)]
      exact procAppendPipeBuf_eq hb hne hnul (by omega)
  | cons c cs ih =>
    have happend : buf ++ c :: cs = buf ++ [c] ++ cs := List.append_cons buf c cs
    rw [happend] at hnul ⊢
    rw [readLoop]
    by_cases hfull : (buf ++ [c]).length = runPipeReadBufLen - 1
    · have hne : buf ++ [c] ≠ [] := List.append_ne_nil_of_right_ne_nil buf (List.cons_ne_nil c [])
      have hpiece := procAppendPipeBuf_eq hb hne (fun h => hnul (List.mem_append_left cs h))
        (by rw [hfull]; decide)
      rw [if_pos hfull, hpiece]
      by_cases hfits : (b.pchar.getD [] ++ (buf ++ [c])).length + 1 < 2 ^ 31
      · rw [if_pos hfits, Option.bind_eq_bind, Option.bind_some,
          ih (hb.extend hfits) (fun h => hnul (List.mem_append_right _ h)) (by decide),
          b.text_extend, List.nil_append, b.extend_extend hne, List.append_assoc]
      · rw [if_neg hfits, if_neg, Option.bind_eq_bind, Option.bind_none]
        simp only [List.length_append] at hfits ⊢
        omega
    · rw [if_neg hfull, ih hb hnul]
      rw [List.length_append, List.length_singleton] at hfull ⊢
      omega

/-! ## The whole output -/

lemma fits_unset : Fits ⟨0, none⟩ := ⟨rfl, by decide⟩

/-- The output is captured if and only if an `int` counts what follows the number, with its NUL. -/
lemma captured_iff_short {fileno : ℤ} (hdigits : ∀ d ∈ digits, d.isDigit = true)
    (hc : ¬c.isDigit = true) (hnul : '\x00' ∉ rest) (hfile : 0 < fileno) :
    Captured digits rest (opened (digits ++ c :: rest) fileno) ↔ rest.length + 1 < 2 ^ 31 := by
  have hpid : readPid (digits ++ c :: rest) 0 = (BitVec.ofNat 32 (digitsValue digits), rest) :=
    @readPid_digits digits rest c [] hdigits hc
  have hloop := @readLoop_eq rest [] ⟨0, none⟩ fits_unset hnul (by decide)
  have hread : readProcessPipe (procReadLrvmPid (opened (digits ++ c :: rest) fileno)) =
      (readLoop rest [] ⟨0, none⟩).map fun b =>
        ⟨some ⟨[], false, fileno⟩, b, BitVec.ofNat 32 (digitsValue digits)⟩ := by
    rw [procReadLrvmPid, opened]
    dsimp only
    rw [hpid, readProcessPipe]
    exact if_neg (by simpa using hfile)
  rw [Captured, hread, hloop]
  show (∃ q, (if rest.length + 1 < 2 ^ 31 then _ else none).map _ = some q ∧ _) ↔ _
  split
  · next hshort =>
    refine iff_of_true ⟨_, rfl, rfl, ?_⟩ hshort
    show PipeBuf.extend ⟨0, none⟩ rest = _
    unfold PipeBuf.extend
    by_cases hempty : rest = []
    · rw [if_pos hempty, if_pos hempty, hempty]
      rfl
    · rw [if_neg hempty, if_neg hempty]
      rfl
  · next hlong =>
    refine iff_of_false ?_ hlong
    rintro ⟨q, hq, -⟩
    cases hq

/-- However often the buffer is full on the way, the output is captured exactly where the
rest has at most 2^31 - 2 bytes. -/
theorem captured_iff {digits rest : CStr} {c : Char} {fileno : ℤ}
    (hdigits : ∀ d ∈ digits, d.isDigit = true) (hc : ¬c.isDigit = true) (hnul : '\x00' ∉ rest)
    (hfile : 0 < fileno) :
    Captured digits rest (opened (digits ++ c :: rest) fileno) ↔ rest.length + 1 < 2 ^ 31 :=
  captured_iff_short hdigits hc hnul hfile

theorem captured_hello :
    Captured ['1', '2', '0', '7'] ['h', 'e', 'l', 'l', 'o']
      (opened (['1', '2', '0', '7'] ++ '\n' :: ['h', 'e', 'l', 'l', 'o']) 5) :=
  (captured_iff (List.all_eq_true.1 rfl) (by decide) (by decide) (by decide)).2 (by decide)

/-- 2^31 - 1 bytes and their NUL are too many for an `int`. -/
theorem not_captured_long : ∃ rest : CStr, rest = List.replicate (2 ^ 31 - 1) 'a' ∧
    ¬Captured ['7'] rest (opened (['7'] ++ '\n' :: rest) 5) := by
  refine ⟨_, rfl, ?_⟩
  generalize hrest : List.replicate (2 ^ 31 - 1) 'a' = rest
  have hlen : rest.length = 2 ^ 31 - 1 := by rw [← hrest, List.length_replicate]
  have hnul : '\x00' ∉ rest := by
    intro hmem
    rw [← hrest] at hmem
    exact absurd (List.eq_of_mem_replicate hmem) (by decide)
  rw [captured_iff_short (List.all_eq_true.1 rfl) (by decide) hnul (by decide), hlen]
  decide

end WebTester.Librun.PipeOutput
