import WebTester.CString
import WebTester.Fields
import WebTester.Lines

/-!
# Commands of an IPC client

`ipc_interact` appends what it receives to the buffer of the client, and
`ipc_parse_client` takes a command out of it. The rest of the buffer is shifted to its
front, but then the buffer is freed.
-/
namespace WebTester.Ipc
open CString Fields

/-- `cmd[i] < ' '` -/
def isControl (c : Char) : Bool := schar c < 32

def isNewline (c : Char) : Bool := c == '\n' || c == '\r'

/-- A received chunk, read as a string. -/
def chunkStr (chunk : CStr) : CStr := chunk.takeWhile (· != '\x00')

/-- What is copied to `cmd_buf`. -/
def cmdBuf (cmd : CStr) : CStr := (cmd.dropWhile isControl).takeWhile (!isNewline ·)

/-- What `recv` says about the socket of a client that stays connected. -/
inductive Recv
  | wouldBlock
  | data (chunk : CStr)

/-- The part of `ipc_interact` that extends the buffer; `none` is a null pointer. -/
def receive (cmd : Option CStr) : Recv → Option CStr
  | .wouldBlock => cmd
  | .data chunk => some (cmd.getD [] ++ chunkStr chunk)

/-- `ipc_parse_client`: the buffer it leaves, and the command it logs, parses and runs. -/
def ipcParseClient (frozen : Bool) : Option CStr → Option CStr × List CStr
  | none => (none, [])
  | some [] => (some [], [])
  | some (c :: cs) => if frozen then (none, []) else (none, [cmdBuf (c :: cs)])

/-- Rounds of `ipc_interact` for a client that is not frozen. -/
def ipcInteract (cmd : Option CStr) : List Recv → List CStr
  | [] => []
  | r :: rs =>
    let (cmd', run) := ipcParseClient false (receive cmd r)
    run ++ ipcInteract cmd' rs

/-- The commands executed from the start of a connection; an empty one has no arguments and
is not executed. -/
def executed (rs : List Recv) : List CStr := (ipcInteract none rs).filter (· ≠ [])

def chunks (rs : List Recv) : List CStr :=
  rs.filterMap fun | .wouldBlock => none | .data chunk => some chunk

def stream (rs : List Recv) : CStr := (chunks rs).flatten

/-! ## The lines of a stream -/

/-- A carriage return ends a line as well. -/
def lineEnd (c : Char) : Char := if c = '\r' then '\n' else c

/-- The lines of a stream, without control characters in front; empty ones do not count. -/
def commands (s : CStr) : List CStr :=
  ((Lines.lines '\n' (s.map lineEnd)).map (List.dropWhile isControl)).filter (· ≠ [])

/-- What has been received of a line that has not ended. -/
def unfinished (s : CStr) : CStr := pending isNewline isControl [] s

lemma isControl_of_isNewline (c : Char) (h : isNewline c) : isControl c := by
  rcases (by simpa [isNewline] using h : c = '\n' ∨ c = '\r') with rfl | rfl <;> decide

lemma lineEnd_eq_iff (c : Char) : lineEnd c = '\n' ↔ isNewline c := by
  unfold lineEnd isNewline
  split
  · next h => simp [h]
  · next h => simp [h]

lemma lineEnd_of_not (c : Char) (h : ¬isNewline c) : lineEnd c = c := by
  refine if_neg ?_
  rintro rfl
  exact h rfl

lemma push_dropWhile (cur : CStr) (c : Char) :
    push isControl (cur.dropWhile isControl) c = (cur ++ [c]).dropWhile isControl := by
  rw [List.dropWhile_append]
  unfold push
  by_cases hcur : cur.dropWhile isControl = []
  · by_cases hc : isControl c <;> simp [hcur, hc]
  · simp [hcur]

lemma commands_eq_emitted (s : CStr) : commands s = emitted isNewline isControl [] s := by
  suffices h : ∀ cur : CStr,
      ((Lines.linesFrom '\n' cur (s.map lineEnd)).map (List.dropWhile isControl)).filter (· ≠ []) =
        emitted isNewline isControl (cur.dropWhile isControl) s from h []
  induction s with
  | nil => exact fun _ => rfl
  | cons c s ih =>
    intro cur
    rw [List.map_cons, Lines.linesFrom]
    by_cases hc : isNewline c
    · rw [if_pos ((lineEnd_eq_iff c).2 hc), emitted_nl hc, List.map_cons, List.filter_cons, ih]
      by_cases hcur : cur.dropWhile isControl = []
      · simp [hcur]
      · simp [hcur, whole_of_ne hcur]
    · rw [if_neg (mt (lineEnd_eq_iff c).1 hc), emitted_push hc, push_dropWhile,
        lineEnd_of_not c hc]
      exact ih _

lemma unfinished_of_terminated (s : CStr) (h : Lines.Terminated '\n' s) : unfinished s = [] := by
  rcases Lines.terminated_iff.1 h with rfl | ⟨t, rfl⟩
  · rfl
  · unfold unfinished
    rw [pending_append]
    rfl

/-! ## One command of each chunk -/

/-- The chunk around the command that is taken out of it. -/
def chunkCut (chunk : CStr) : Cut isNewline isControl where
  lead := (chunkStr chunk).takeWhile isControl
  text := cmdBuf (chunkStr chunk)
  rest := ((chunkStr chunk).dropWhile isControl).dropWhile (!isNewline ·) ++
    chunk.dropWhile (· != '\x00')
  blank_lead := fun _ => List.mem_takeWhile_imp
  line := fun _ hc => by simpa using List.mem_takeWhile_imp hc
  head := by
    intro c hc
    unfold cmdBuf at hc
    rw [List.head?_takeWhile] at hc
    obtain ⟨hhead, -⟩ := Option.mem_filter_iff.1 hc
    exact Bool.eq_false_iff.1 (eq_false_of_head?_dropWhile hhead)

lemma part_chunkCut (chunk : CStr) : (chunkCut chunk).part = chunk := by
  have htext : cmdBuf (chunkStr chunk) ++
      ((chunkStr chunk).dropWhile isControl).dropWhile (!isNewline ·) =
        (chunkStr chunk).dropWhile isControl := List.takeWhile_append_dropWhile
  have hstr : chunkStr chunk ++ chunk.dropWhile (· != '\x00') = chunk :=
    List.takeWhile_append_dropWhile
  rw [Cut.part, chunkCut, ← List.append_assoc (cmdBuf _), htext, ← List.append_assoc,
    List.takeWhile_append_dropWhile, hstr]

/-- Parsing runs the command of the buffer and leaves nothing in it. -/
lemma ipcParseClient_spec (s : CStr) : (ipcParseClient false (some s)).1.getD [] = [] ∧
    (ipcParseClient false (some s)).2.filter (· ≠ []) = whole (cmdBuf s) := by
  cases s with
  | nil => exact ⟨rfl, rfl⟩
  | cons c cs =>
    refine ⟨rfl, ?_⟩
    change [cmdBuf (c :: cs)].filter (· ≠ []) = _
    by_cases hbuf : cmdBuf (c :: cs) = []
    · simp [hbuf]
    · simp [hbuf, whole_of_ne hbuf]

lemma ipcInteract_cons (cmd : Option CStr) (r : Recv) (rs : List Recv) :
    ipcInteract cmd (r :: rs) = (ipcParseClient false (receive cmd r)).2 ++
      ipcInteract (ipcParseClient false (receive cmd r)).1 rs := rfl

/-- The buffer is empty between the rounds, whatever was received. -/
lemma filter_ipcInteract (rs : List Recv) (cmd : Option CStr) (h : cmd.getD [] = []) :
    (ipcInteract cmd rs).filter (· ≠ []) = Cut.taken ((chunks rs).map chunkCut) := by
  induction rs generalizing cmd with
  | nil => rfl
  | cons r rs ih =>
    rw [ipcInteract_cons, List.filter_append]
    cases r with
    | wouldBlock =>
      change _ = Cut.taken ((chunks rs).map chunkCut)
      cases cmd with
      | none => exact ih none rfl
      | some s =>
        obtain rfl : s = [] := h
        exact ih (some []) rfl
    | data chunk =>
      rw [receive, h, List.nil_append]
      obtain ⟨hempty, hrun⟩ := ipcParseClient_spec (chunkStr chunk)
      rw [hrun, ih _ hempty]
      rfl

/-- At most one command and its line end, with nothing behind them. -/
def OneCommand (chunk : CStr) : Prop :=
  ∃ lead text trail, chunk = lead ++ (text ++ trail) ∧ (∀ c ∈ lead, isControl c) ∧
    (∀ c ∈ text, ¬isNewline c) ∧ (∀ c ∈ text.head?, ¬isControl c) ∧ (∀ c ∈ trail, isControl c) ∧
    (text ≠ [] → '\x00' ∉ lead ++ text ∧ AtEnd isNewline trail)

/-- The command of a chunk that has one is the one that is taken. -/
lemma chunkCut_eq {lead trail : CStr} {c : Char} {cs : CStr} (hlead : ∀ x ∈ lead, isControl x)
    (hc : ¬isControl c) (hline : ∀ x ∈ c :: cs, ¬isNewline x) (hnul : '\x00' ∉ lead ++ c :: cs)
    (hat : AtEnd isNewline trail) :
    (chunkCut (lead ++ (c :: cs ++ trail))).lead = lead ∧
      (chunkCut (lead ++ (c :: cs ++ trail))).text = c :: cs := by
  have hstr : chunkStr (lead ++ (c :: cs ++ trail)) = lead ++ (c :: cs ++ chunkStr trail) := by
    unfold chunkStr
    rw [← List.append_assoc, List.takeWhile_append_of_pos, List.append_assoc]
    intro x hx
    rw [bne_iff_ne]
    rintro rfl
    exact hnul hx
  have hdrop : (lead ++ (c :: cs ++ chunkStr trail)).dropWhile isControl =
      c :: cs ++ chunkStr trail := by
    rw [List.dropWhile_append_of_pos hlead, List.cons_append, List.dropWhile_cons_of_neg hc]
  have htrail : (chunkStr trail).takeWhile (!isNewline ·) = [] := by
    cases trail with
    | nil => rfl
    | cons x t =>
      have hx : isNewline x := hat x rfl
      unfold chunkStr
      rw [List.takeWhile_cons]
      split
      · rw [List.takeWhile_cons_of_neg (by simpa using hx)]
      · rfl
  refine ⟨?_, ?_⟩
  · change (chunkStr _).takeWhile isControl = lead
    rw [hstr, List.takeWhile_append_of_pos hlead, List.cons_append,
      List.takeWhile_cons_of_neg hc, List.append_nil]
  · change ((chunkStr _).dropWhile isControl).takeWhile _ = c :: cs
    rw [hstr, hdrop, List.takeWhile_append_of_pos, htrail, List.append_nil]
    intro x hx
    simpa using hline x hx

/-- Of a chunk of control characters nothing is taken. -/
lemma text_chunkCut_eq_nil {chunk : CStr} (h : ∀ c ∈ chunk, isControl c) :
    (chunkCut chunk).text = [] := by
  by_contra hne
  obtain ⟨c, cs, hcs⟩ := List.exists_cons_of_ne_nil hne
  refine (chunkCut chunk).head c (by rw [hcs]; rfl) (h c ?_)
  rw [← part_chunkCut chunk, Cut.part, hcs]
  simp

lemma oneCommand_iff (chunk : CStr) : OneCommand chunk ↔
    (∀ c ∈ (chunkCut chunk).rest, isControl c) ∧
      ((chunkCut chunk).text ≠ [] → AtEnd isNewline (chunkCut chunk).rest) := by
  have hpart : (chunkCut chunk).lead ++ ((chunkCut chunk).text ++ (chunkCut chunk).rest) = chunk :=
    part_chunkCut chunk
  constructor
  · rintro ⟨lead, text, trail, hchunk, hlead, hline, hhead, htrail, hend⟩
    by_cases ht : text = []
    · -- A chunk of control characters.
      have hall : ∀ c ∈ chunk, isControl c := by
        intro c hc
        rw [hchunk, ht, List.nil_append, List.mem_append] at hc
        exact hc.elim (hlead c) (htrail c)
      refine ⟨fun c hc => hall c ?_, fun hne => absurd (text_chunkCut_eq_nil hall) hne⟩
      rw [← hpart]
      simp [hc]
    · obtain ⟨hnul, hat⟩ := hend ht
      obtain ⟨c, cs, rfl⟩ := List.exists_cons_of_ne_nil ht
      obtain ⟨hleadEq, htextEq⟩ := chunkCut_eq hlead (hhead c rfl) hline hnul hat
      rw [← hchunk] at hleadEq htextEq
      have hrest : (chunkCut chunk).rest = trail := by
        rw [hleadEq, htextEq] at hpart
        exact List.append_cancel_left (List.append_cancel_left (hpart.trans hchunk))
      rw [hrest]
      exact ⟨htrail, fun _ => hat⟩
  · rintro ⟨hrest, hend⟩
    refine ⟨_, _, _, hpart.symm, (chunkCut chunk).blank_lead, (chunkCut chunk).line,
      (chunkCut chunk).head, hrest, fun hne => ⟨?_, hend hne⟩⟩
    intro hnul
    refine absurd (List.mem_takeWhile_imp (?_ : '\x00' ∈ chunkStr chunk)) (by decide)
    rcases List.mem_append.1 hnul with hmem | hmem
    · exact (List.takeWhile_prefix isControl).subset hmem
    · exact (List.dropWhile_suffix isControl).subset ((List.takeWhile_prefix _).subset hmem)

/-- The cuts fit one after another when every chunk has one command and no chunk goes on
with an unfinished line. -/
lemma fitting_iff (l : List CStr) (s : CStr) :
    Cut.Fitting (pending isNewline isControl [] s) (l.map chunkCut) ↔
      ∀ pre c post, l = pre ++ c :: post →
        OneCommand c ∧ (unfinished (s ++ pre.flatten) ≠ [] → AtEnd isNewline c) := by
  induction l generalizing s with
  | nil => simp [Cut.Fitting]
  | cons d l ih =>
    rw [List.map_cons, Cut.Fitting, part_chunkCut, ← pending_append, ih, Cut.Fits, part_chunkCut,
      ← oneCommand_iff]
    constructor
    · rintro ⟨⟨hat, hone⟩, h⟩ pre c post heq
      cases pre with
      | nil =>
        obtain ⟨rfl, rfl⟩ := List.cons_eq_cons.1 heq
        exact ⟨hone, by simpa [unfinished] using hat⟩
      | cons p pre =>
        obtain ⟨rfl, rfl⟩ := List.cons_eq_cons.1 heq
        simpa using h pre c post rfl
    · intro h
      obtain ⟨hone, hat⟩ := h [] d l rfl
      refine ⟨⟨by simpa [unfinished] using hat, hone⟩, ?_⟩
      rintro pre c post rfl
      simpa using h (d :: pre) c post rfl

/-- For a stream of terminated lines, the executed commands are its lines exactly when
every chunk has at most one command and nothing after it but the end of its line, and a chunk
after an unfinished line starts with the end of that line. -/
theorem executed_eq_commands_iff (rs : List Recv) (hne : ∀ c ∈ chunks rs, c ≠ [])
    (hend : Lines.Terminated '\n' (stream rs)) :
    executed rs = commands (stream rs) ↔
      ∀ pre c post, chunks rs = pre ++ c :: post →
        OneCommand c ∧ (unfinished pre.flatten ≠ [] → AtEnd isNewline c) := by
  have hpart : ∀ k ∈ (chunks rs).map chunkCut, k.part ≠ [] := by
    intro k hk
    obtain ⟨c, hc, rfl⟩ := List.mem_map.1 hk
    rw [part_chunkCut]
    exact hne c hc
  have hstream : ((chunks rs).map chunkCut).flatMap Cut.part = stream rs := by
    rw [List.flatMap_map]
    simp [part_chunkCut, stream, List.flatMap]
  have htexts : texts isNewline isControl [] (stream rs) = commands (stream rs) := by
    have hpending : pending isNewline isControl [] (stream rs) = [] :=
      unfinished_of_terminated _ hend
    rw [texts, hpending, whole_nil, List.append_nil, commands_eq_emitted]
  have hiff := Cut.taken_eq_texts_iff isControl_of_isNewline hpart
  rw [hstream, htexts] at hiff
  unfold executed
  rw [filter_ipcInteract rs none rfl, hiff]
  exact fitting_iff (chunks rs) []

theorem executed_eq_commands_help : executed [.wouldBlock, .data "help\r\n".toList] =
    commands (stream [.wouldBlock, .data "help\r\n".toList]) := by
  refine (executed_eq_commands_iff _ (by decide) (by decide)).2 fun pre c post h => ?_
  obtain ⟨rfl, rfl⟩ : pre = [] ∧ c = "help\r\n".toList := by
    cases pre with
    | nil => exact ⟨rfl, (List.cons_eq_cons.1 h).1.symm⟩
    | cons p pre => simp [chunks] at h
  have htext : "help".toList.all (!isNewline ·) := by decide
  have htrail : "\r\n".toList.all isControl := by decide
  refine ⟨⟨[], "help".toList, "\r\n".toList, rfl, by simp, ?_, ?_, ?_, ?_⟩, by decide⟩
  · simpa using List.all_eq_true.1 htext
  · rintro c ⟨rfl⟩
    decide
  · exact List.all_eq_true.1 htrail
  · exact fun _ => ⟨by decide, by decide⟩

/-- The second line of a chunk is dropped. -/
theorem executed_ne_commands : ¬∀ rs : List Recv, (∀ c ∈ chunks rs, c ≠ []) →
    Lines.Terminated '\n' (stream rs) → executed rs = commands (stream rs) := by
  intro h
  exact absurd (h [.data "a\nb\n".toList] (by decide) (by decide)) (by decide)

/-- A line in two chunks is two commands. -/
example : executed [.data "he".toList, .data "lp\n".toList] = ["he".toList, "lp".toList] := by
  decide

end WebTester.Ipc
