import WebTester.Descent
import WebTester.Nesting

/-!
# Loading a configuration with the files that it includes

`hive_parse_file` is called for every `#include`, and what it returns is not looked at. Which
files a text includes and whether its own parsing fails does not depend on what is in them: the
outline of a text is its parsing without the tree. The loading ends where the stack has room for the
calls: a file that includes itself, directly or not, needs more than there is. It returns zero
whenever the outline of the first file does.
-/
namespace WebTester.Hive
open CString Flexval Relation Descent

inductive Verdict
  | success
  | failure
  | fault
  deriving DecidableEq, Repr

def Control.verdict (c : Control) : Verdict :=
  if c.finish 0 = none then .success else .failure

lemma Control.verdict_ne_fault (c : Control) : c.verdict ≠ .fault := by
  unfold verdict
  split_ifs <;> decide

section Outline

variable {F : Type} (D : Doubles F)

/-- The files that a text includes up to an error, and how its parsing ends. -/
def outline (dir : CStr) : ℕ → Control → Option CStr → List CStr × Verdict
  | 0, _, _ => ([], .fault)
  | fuel + 1, c, data =>
    match scan data with
    | .fault => ([], .fault)
    | .finished _ => ([], c.verdict)
    | .unended _ _ => ([], .failure)
    | .token t _ data =>
      if t.array && c.state ≠ .value then ([], .failure)
      else if t.text.head? = some '#' && !t.string then
        if t.text = "#include".toList then
          match scan data with
          | .fault => ([], .fault)
          | .finished _ => ([includeName dir []], c.verdict)
          | .unended text _ =>
            match leftover text with
            | none => ([], .fault)
            | some token => ([includeName dir token], c.verdict)
          | .token t _ data =>
            let o := outline dir fuel c data
            (includeName dir t.text :: o.1, o.2)
        else ([], .failure)
      else
        match c.step 0 t with
        | .error _ => ([], .failure)
        | .ok (c, action) =>
          if ∀ v ∈ action.adds, (spawnValue D v.2).isSome then outline dir fuel c data
          else ([], .fault)

/-- How many calls of `flexval_unserialize_entry` are in one another while a text is parsed, up to
an error. -/
def arrayCalls : ℕ → Control → Option CStr → ℕ
  | 0, _, _ => 0
  | fuel + 1, c, data =>
    match scan data with
    | .fault => 0
    | .finished _ => 0
    | .unended _ _ => 0
    | .token t _ data =>
      if t.array && c.state ≠ .value then 0
      else if t.text.head? = some '#' && !t.string then
        if t.text = "#include".toList then
          match scan data with
          | .token _ _ data => arrayCalls fuel c data
          | _ => 0
        else 0
      else
        match c.step 0 t with
        | .error _ => 0
        | .ok (c, action) =>
          max ((action.adds.map fun v => tokenCalls D v.2).getD 0) (arrayCalls fuel c data)

variable (files : List (CStr × CStr))

/-- The outline of a file. -/
def survey (fn : CStr) : List CStr × Verdict :=
  match files.lookup fn with
  | none => ([], .failure)
  | some data =>
    if 4096 ≤ (dirname fn).length then ([], .fault)
    else outline D (dirname fn) (data.length + 1) Control.start (some data)

def Includes (f f' : CStr) : Prop := f' ∈ (survey D files f).1

/-- A file that is included, directly or not. -/
def Reaches : CStr → CStr → Prop := ReflTransGen (Includes D files)

/-- No file is included deeper than so many files are read in one another. -/
def IncludedWithin : ℕ → CStr → Prop
  | 0, _ => False
  | n + 1, f => ∀ f', Includes D files f f' → IncludedWithin n f'

/-- The arrays in a file. -/
def fileCalls (fn : CStr) : ℕ :=
  match files.lookup fn with
  | none => 0
  | some data => arrayCalls D (data.length + 1) Control.start (some data)

/-- The arrays in the files that are read in one another fit on the stack where they stand, with
`array` bytes for each one in another. So many frames are left. -/
def arraysFit (stack : CallStack) (array : ℕ) : ℕ → CStr → Bool
  | 0, _ => true
  | n + 1, f => fileCalls D files f * array ≤ n * stack.frame + stack.size % stack.frame &&
    (survey D files f).1.all (arraysFit stack array n)

/-- `hive_parse_file` with an empty heap. -/
def load (fuel : ℕ) (fn : CStr) (line : ℕ) (error : CStr) : Except Stop (Parsed F) :=
  parseFile D (fun fn => files.lookup fn) fuel fn ⟨[], line, error⟩

/-- The loading on a stack: a frame is one of `hive_parse_file` with its call of `hive_parse_buf`,
and the arrays take what is left. -/
def loadOn (stack : CallStack) (array : ℕ) (fn : CStr) (line : ℕ) (error : CStr) :
    Except Stop (Parsed F) :=
  if arraysFit D files stack array stack.calls fn then load D files stack.calls fn line error
  else .error .fault

/-- The file can be loaded and parsed without an error. -/
def Loads (fn : CStr) : Prop :=
  ∃ fuel line error p, load D files fuel fn line error = .ok p ∧ p.success

/-- Loading terminates on its stack, and reports every failure. -/
def Reports (stack : CallStack) (array : ℕ) (fn : CStr) (line : ℕ) (error : CStr) : Prop :=
  ∃ p, loadOn D files stack array fn line error = .ok p ∧
    (p.success → ∀ f, Reaches D files fn f → Loads D files f)

end Outline

/-! ## The outline of a parsing that returns -/

section Returned

variable {F : Type} {D : Doubles F} {parseFile : CStr → Globals F → Except Stop (Parsed F)}
  {dir : CStr}

lemma bind_eq_ok {α β : Type} {x : Except Stop α} {f : α → Except Stop β} {b : β}
    (h : (x >>= f) = .ok b) : ∃ a, x = .ok a ∧ f a = .ok b := by
  cases x with
  | error e => cases h
  | ok a => exact ⟨a, rfl, h⟩

lemma Control.step_error {c : Control} {t : Token} {line : ℕ} {e : CStr}
    (h : c.step line t = .error e) (line' : ℕ) : ∃ e', c.step line' t = .error e' := by
  cases hstep : c.step line' t with
  | error e' => exact ⟨e', rfl⟩
  | ok r =>
    rw [Control.step_line hstep line] at h
    cases h

lemma adds_of_apply {action : Action} {heap : Heap F} {cur : ℕ} {r : Heap F × ℕ}
    (h : action.apply D heap cur = some r) : ∀ v ∈ action.adds, (spawnValue D v.2).isSome := by
  intro v hv
  obtain ⟨name, t⟩ := v
  rw [Option.mem_def] at hv
  cases hspawn : spawnValue D t with
  | none => simp [Action.apply, hv, addVariable, hspawn] at h
  | some value => rfl

lemma finishBuf_success (root : ℕ) (c : Control) (g : Globals F) :
    (finishBuf root c g).success = true ↔ c.verdict = .success := by
  unfold finishBuf Control.verdict Control.finish
  split_ifs <;> simp_all

lemma includeFile_ok {cur : ℕ} {token : CStr} {g g' : Globals F}
    (h : includeFile parseFile dir cur token g = .ok g') :
    ∃ p, parseFile (includeName dir token) g = .ok p := by
  obtain ⟨p, hp, -⟩ := bind_eq_ok h
  exact ⟨p, hp⟩

lemma finishBuf_globals (root : ℕ) (c : Control) (g : Globals F) :
    (finishBuf root c g).root = some root ∧ (finishBuf root c g).globals.heap = g.heap := by
  unfold finishBuf
  split <;> exact ⟨rfl, rfl⟩

/-- What an iteration of the loop does in the outline and in the parser: it leaves the buffers, it
ends the parsing, it includes a last file or one with more data after it, or it takes a token. -/
inductive Turn (D : Doubles F) (parseFile : CStr → Globals F → Except Stop (Parsed F))
    (dir : CStr) (root fuel : ℕ) (c : Control) (cur : ℕ) (g : Globals F) :
    List CStr × Verdict → Except Stop (Parsed F) → Prop
  | fault : Turn D parseFile dir root fuel c cur g ([], .fault) (.error .fault)
  | ends {v : Verdict} {p : Parsed F} : v ≠ .fault → (p.success = true ↔ v = .success) →
      p.root = some root → p.globals.heap = g.heap →
      Turn D parseFile dir root fuel c cur g ([], v) (.ok p)
  | last (token : CStr) {g' : Globals F} : g'.heap = g.heap →
      Turn D parseFile dir root fuel c cur g ([includeName dir token], c.verdict)
        (includeFile parseFile dir cur token g' >>= fun g => pure (finishBuf root c g))
  | more (token : CStr) (data : Option CStr) {g' : Globals F} : g'.heap = g.heap →
      Turn D parseFile dir root fuel c cur g
        (includeName dir token :: (outline D dir fuel c data).1, (outline D dir fuel c data).2)
        (includeFile parseFile dir cur token g' >>= fun g =>
          parseLoop D parseFile dir root fuel c cur data g)
  | token {line : ℕ} {t : Token} {c' : Control} {a : Action} (data : Option CStr) :
      c.step line t = .ok (c', a) →
      Turn D parseFile dir root fuel c cur g
        (if ∀ v ∈ a.adds, (spawnValue D v.2).isSome then outline D dir fuel c' data
          else ([], .fault))
        (match a.apply D g.heap cur with
          | none => .error .fault
          | some (heap, cur) =>
            parseLoop D parseFile dir root fuel c' cur data { g with heap := heap, line := line })

variable (D parseFile dir) in
lemma turn (root fuel : ℕ) (c : Control) (cur : ℕ) (data : Option CStr) (g : Globals F) :
    Turn D parseFile dir root fuel c cur g (outline D dir (fuel + 1) c data)
      (parseLoop D parseFile dir root (fuel + 1) c cur data g) := by
  rw [outline, parseLoop]
  have hfail : ∀ line error, Turn D parseFile dir root fuel c cur g ([], .failure)
      (.ok ⟨false, some root, { g with line := line, error := error }⟩) :=
    fun _ _ => .ends (by simp) (by simp) rfl rfl
  cases scan data with
  | fault => exact .fault
  | finished lines =>
    obtain ⟨hroot, hheap⟩ := finishBuf_globals root c { g with line := g.line + lines }
    exact .ends c.verdict_ne_fault (finishBuf_success root c _) hroot hheap
  | unended text lines => exact hfail _ _
  | token t lines rest =>
    dsimp only
    split_ifs with harray hdirective hinclude
    · exact hfail _ _
    · cases scan rest with
      | fault => exact .fault
      | finished lines' => exact .last [] rfl
      | unended text lines' =>
        dsimp only
        cases leftover text with
        | none => exact .fault
        | some token => exact .last token rfl
      | token t' lines' rest' => exact .more t'.text rest' rfl
    · exact hfail _ _
    · cases hstep : c.step (g.line + lines) t with
      | error e =>
        obtain ⟨e', he'⟩ := Control.step_error hstep 0
        rw [he']
        exact hfail _ _
      | ok r =>
        obtain ⟨c', a⟩ := r
        rw [Control.step_line hstep 0]
        exact .token rest hstep

/-- A parsing that returns follows the outline, and every file that it includes was parsed. -/
lemma parseLoop_ok {root fuel : ℕ} {c : Control} {cur : ℕ} {data : Option CStr} {g : Globals F}
    {p : Parsed F} (h : parseLoop D parseFile dir root fuel c cur data g = .ok p) :
    (outline D dir fuel c data).2 ≠ .fault ∧
    (p.success = true ↔ (outline D dir fuel c data).2 = .success) ∧
    ∀ f ∈ (outline D dir fuel c data).1, ∃ g' q, parseFile f g' = .ok q := by
  induction fuel generalizing c cur data g with
  | zero => cases h
  | succ fuel ih =>
    have hturn := turn D parseFile dir root fuel c cur data g
    generalize outline D dir (fuel + 1) c data = o at hturn ⊢
    generalize parseLoop D parseFile dir root (fuel + 1) c cur data g = r at hturn h
    cases hturn with
    | fault => cases h
    | ends hv hsuccess =>
      obtain rfl := Except.ok.inj h
      exact ⟨hv, hsuccess, by simp⟩
    | last token =>
      obtain ⟨g', hg', hp⟩ := bind_eq_ok h
      obtain rfl := Except.ok.inj hp
      refine ⟨c.verdict_ne_fault, finishBuf_success root c g', ?_⟩
      intro f hf
      rw [List.mem_singleton.1 hf]
      exact ⟨_, includeFile_ok hg'⟩
    | more token data =>
      obtain ⟨g', hg', hp⟩ := bind_eq_ok h
      obtain ⟨hfault, hsuccess, hfiles⟩ := ih hp
      refine ⟨hfault, hsuccess, ?_⟩
      intro f hf
      rcases List.mem_cons.1 hf with rfl | hf
      · exact ⟨_, includeFile_ok hg'⟩
      · exact hfiles f hf
    | @token line t c' a data hstep =>
      cases happly : a.apply D g.heap cur with
      | none => simp [happly] at h
      | some r =>
        simp only [happly] at h
        rw [if_pos (adds_of_apply happly)]
        exact ih h

end Returned

/-! ## No `NULL` is followed -/

section Tree

variable {F : Type} {D : Doubles F} {heap heap' : Heap F} {root cur b : ℕ} {v : Bool}

/-- Children have greater numbers than their parents. -/
def Tidy (heap : Heap F) : Prop :=
  ∀ i node, heap[i]? = some node → ∀ k ∈ node.nodes, i < k ∧ k < heap.length

/-- The nodes whose braces are open, from the current node up to the root. -/
def Chain (root : ℕ) (heap : Heap F) : ℕ → ℕ → Prop
  | 0, _ => True
  | b + 1, cur => ∃ node p parent, heap[cur]? = some node ∧ node.parent = some p ∧ root ≤ p ∧
      p < cur ∧ heap[p]? = some parent ∧ parent.nodes ≠ [] ∧ Chain root heap b p

/-- The current node between two tokens; after a value it has children. -/
structure Cursor (root : ℕ) (heap : Heap F) (cur : ℕ) (v : Bool) (b : ℕ) : Prop where
  tidy : Tidy heap
  le : root ≤ cur
  node : ∃ node, heap[cur]? = some node ∧ (v → node.nodes ≠ [])
  chain : Chain root heap b cur

/-- The nodes before the root stay as they are. -/
structure Frame (root : ℕ) (heap heap' : Heap F) : Prop where
  length : heap.length ≤ heap'.length
  old : ∀ i < root, heap'[i]? = heap[i]?

lemma Frame.refl (root : ℕ) (heap : Heap F) : Frame root heap heap :=
  ⟨le_rfl, fun _ _ => rfl⟩

lemma Frame.trans {heap'' : Heap F} (h : Frame root heap heap') (h' : Frame root heap' heap'') :
    Frame root heap heap'' :=
  ⟨h.length.trans h'.length, fun i hi => (h'.old i hi).trans (h.old i hi)⟩

/-- What holds of the open nodes lasts while they keep their parents and children. -/
lemma Chain.mono (h : Chain root heap b cur)
    (hkeep : ∀ i ≤ cur, ∀ node, heap[i]? = some node → ∃ node', heap'[i]? = some node' ∧
      node'.parent = node.parent ∧ (node.nodes ≠ [] → node'.nodes ≠ [])) :
    Chain root heap' b cur := by
  induction b generalizing cur with
  | zero => trivial
  | succ b ih =>
    obtain ⟨node, p, parent, hnode, hp, hroot, hlt, hparent, hne, hchain⟩ := h
    obtain ⟨node', hnode', hp', -⟩ := hkeep cur le_rfl node hnode
    obtain ⟨parent', hparent', -, hne'⟩ := hkeep p hlt.le parent hparent
    exact ⟨node', p, parent', hnode', hp'.trans hp, hroot, hlt, hparent', hne' hne,
      ih hchain fun i hi => hkeep i (hi.trans hlt.le)⟩

lemma Grown.keep {ids : List ℕ} (h : Grown cur ids heap heap') {i : ℕ} {node : Node F}
    (hnode : heap[i]? = some node) : ∃ node', heap'[i]? = some node' ∧
      node'.parent = node.parent ∧ (node.nodes ≠ [] → node'.nodes ≠ []) := by
  by_cases hi : i = cur
  · subst hi
    exact ⟨_, h.cur node hnode, rfl, fun hne => by simp [hne]⟩
  · have hlt : i < heap.length := (List.getElem?_eq_some_iff.1 hnode).1
    exact ⟨node, (h.old i hlt hi).trans hnode, rfl, fun hne => hne⟩

lemma Grown.frame {ids : List ℕ} (h : Grown cur ids heap heap') (hroot : root ≤ cur)
    (hcur : cur < heap.length) : Frame root heap heap' :=
  ⟨h.length, fun i hi => h.old i (by omega) (by omega)⟩

lemma Cursor.lt (h : Cursor root heap cur v b) : cur < heap.length := by
  obtain ⟨node, hnode, -⟩ := h.node
  exact (List.getElem?_eq_some_iff.1 hnode).1

/-- New children of the current node. -/
lemma Cursor.grown (h : Cursor root heap cur v b) {ids : List ℕ} (hgrown : Grown cur ids heap heap')
    (htidy : Tidy heap') (w : Bool) (hw : w → v ∨ ids ≠ []) : Cursor root heap' cur w b := by
  obtain ⟨node, hnode, hv⟩ := h.node
  refine ⟨htidy, h.le, ⟨_, hgrown.cur node hnode, ?_⟩, h.chain.mono fun i _ node => hgrown.keep⟩
  intro hw'
  rcases hw hw' with hv' | hids
  · simp [hv hv']
  · simp [hids]

lemma Grown.tidy {ids : List ℕ} (h : Grown cur ids heap heap') (htidy : Tidy heap)
    (hids : ∀ k ∈ ids, cur < k ∧ k < heap'.length)
    (hnew : ∀ i node, heap.length ≤ i → heap'[i]? = some node → node.nodes = []) :
    Tidy heap' := by
  intro i node' hnode' k hk
  rcases Nat.lt_or_ge i heap.length with hi | hi
  · have hnode : heap[i]? = some heap[i] := List.getElem?_eq_getElem hi
    by_cases hcur : i = cur
    · subst hcur
      rw [h.cur _ hnode] at hnode'
      obtain rfl := Option.some.inj hnode'
      rcases List.mem_append.1 hk with hk | hk
      · obtain ⟨hlt, hlen⟩ := htidy i _ hnode k hk
        exact ⟨hlt, hlen.trans_le h.length⟩
      · exact hids k hk
    · rw [h.old i hi hcur] at hnode'
      obtain ⟨hlt, hlen⟩ := htidy i node' hnode' k hk
      exact ⟨hlt, hlen.trans_le h.length⟩
  · rw [hnew i node' hi hnode'] at hk
    cases hk

lemma Cursor.addVariable (h : Cursor root heap cur v b) {t : Token}
    (ht : (spawnValue D t).isSome) (name : CStr) :
    ∃ heap', addVariable D heap cur name t = some heap' ∧ Cursor root heap' cur true b ∧
      Frame root heap heap' := by
  obtain ⟨value, hvalue⟩ := Option.isSome_iff_exists.1 ht
  obtain ⟨node, hnode, -⟩ := h.node
  obtain ⟨heap', hadd, hgrown, hnew, hlen⟩ := addVariable_grown hnode hvalue name
  have hcur := h.lt
  have htidy : Tidy heap' := by
    refine hgrown.tidy h.tidy ?_ ?_
    · intro k hk
      rw [List.mem_singleton.1 hk, hlen]
      omega
    · intro i node' hi hnode'
      have hlt : i < heap'.length := (List.getElem?_eq_some_iff.1 hnode').1
      obtain rfl : i = heap.length := by omega
      rw [hnew] at hnode'
      rw [← Option.some.inj hnode']
  exact ⟨heap', hadd, h.grown hgrown htidy true (by simp), hgrown.frame h.le h.lt⟩

/-- `current_node` becomes its last child. -/
lemma Cursor.descend (h : Cursor root heap cur true b) :
    ∃ heap' child, move heap cur .descend = some (heap', child) ∧
      Cursor root heap' child false (b + 1) ∧ Frame root heap heap' := by
  obtain ⟨node, hnode, hne⟩ := h.node
  specialize hne rfl
  have hlast : node.nodes.getLast? = some (node.nodes.getLast hne) :=
    List.getLast?_eq_some_getLast hne
  obtain ⟨hlt, hlen⟩ := h.tidy cur node hnode _ (List.getLast_mem hne)
  generalize node.nodes.getLast hne = child at hlast hlt hlen
  have hchild : heap[child]? = some heap[child] := List.getElem?_eq_getElem hlen
  have hother : ∀ i, i ≠ child →
      (heap.set child { heap[child] with parent := some cur })[i]? = heap[i]? :=
    fun i hi => List.getElem?_set_ne hi.symm
  have hself : (heap.set child { heap[child] with parent := some cur })[child]? =
      some { heap[child] with parent := some cur } := List.getElem?_set_self hlen
  refine ⟨heap.set child { heap[child] with parent := some cur }, child, ?_, ⟨?_, ?_, ?_, ?_⟩,
    ⟨?_, ?_⟩⟩
  · simp [move, hnode, hlast, hchild]
  · intro i node' hnode' k hk
    rw [List.length_set]
    by_cases hi : i = child
    · rw [hi, hself] at hnode'
      obtain rfl := Option.some.inj hnode'
      exact hi ▸ h.tidy child _ hchild k hk
    · rw [hother i hi] at hnode'
      exact h.tidy i node' hnode' k hk
  · exact h.le.trans hlt.le
  · exact ⟨_, hself, by simp⟩
  · refine ⟨_, cur, node, hself, rfl, h.le, hlt, (hother cur hlt.ne).trans hnode, hne, ?_⟩
    refine h.chain.mono fun i hi node' hnode' => ⟨node', ?_, rfl, id⟩
    exact (hother i (by omega)).trans hnode'
  · rw [List.length_set]
  · exact fun i hi => hother i (by have := h.le; omega)

/-- `current_node` becomes its parent. -/
lemma Cursor.ascend (h : Cursor root heap cur v (b + 1)) :
    ∃ p, move heap cur .ascend = some (heap, p) ∧ Cursor root heap p true b := by
  obtain ⟨node, p, parent, hnode, hp, hroot, hlt, hparent, hne, hchain⟩ := h.chain
  refine ⟨p, by simp [move, hnode, hp], h.tidy, hroot, ⟨parent, hparent, fun _ => hne⟩, hchain⟩

lemma Cursor.weaken (h : Cursor root heap cur true b) (v : Bool) : Cursor root heap cur v b := by
  obtain ⟨node, hnode, hne⟩ := h.node
  exact ⟨h.tidy, h.le, ⟨node, hnode, fun _ => hne rfl⟩, h.chain⟩

/-- Everything that a token can do to the flags and to the tree. -/
lemma Control.step_cases {c c' : Control} {line : ℕ} {t : Token} {a : Action}
    (h : c.step line t = .ok (c', a)) :
    (a = ⟨none, .stay⟩ ∧ c'.varTaked = false ∧ c'.braceCount = c.braceCount) ∨
    (∃ v, a = ⟨some v, .stay⟩ ∧ c'.braceCount = c.braceCount) ∨
    (∃ v, a = ⟨some v, .descend⟩ ∧ c'.varTaked = false ∧ c'.braceCount = c.braceCount + 1) ∨
    (a = ⟨none, .descend⟩ ∧ c.varTaked = true ∧ c'.varTaked = false ∧
      c'.braceCount = c.braceCount + 1) ∨
    (a = ⟨none, .ascend⟩ ∧ c.braceCount = c'.braceCount + 1) := by
  unfold step at h
  cases hstate : c.state with
  | name =>
    simp only [hstate] at h
    split_ifs at h with hopen herror hname hclose herror
    · cases h
      exact .inr (.inr (.inl ⟨_, rfl, rfl, rfl⟩))
    · cases h
      have hvar : c.varTaked = true := by simpa [hname] using herror
      exact .inr (.inr (.inr (.inl ⟨rfl, hvar, rfl, rfl⟩)))
    · cases h
      have hbrace : c.braceCount ≠ 0 := fun hzero => herror (by simp [hzero])
      exact .inr (.inr (.inr (.inr ⟨rfl, (Nat.sub_add_cancel (Nat.pos_of_ne_zero hbrace)).symm⟩)))
    · cases h
      exact .inl ⟨rfl, rfl, rfl⟩
  | value =>
    simp only [hstate] at h
    split_ifs at h with hopen herror hclose herror
    · cases h
      exact .inr (.inr (.inl ⟨_, rfl, rfl, rfl⟩))
    · cases h
      have hbrace : c.braceCount ≠ 0 := fun hzero => herror (by simp [hzero])
      exact .inr (.inr (.inr (.inr ⟨rfl, (Nat.sub_add_cancel (Nat.pos_of_ne_zero hbrace)).symm⟩)))
    · cases h
      exact .inr (.inl ⟨_, rfl, rfl⟩)

/-- A token that has a value finds all the nodes that it needs. -/
lemma Cursor.apply {c c' : Control} {line : ℕ} {t : Token} {a : Action}
    (h : Cursor root heap cur c.varTaked c.braceCount) (hstep : c.step line t = .ok (c', a))
    (hadds : ∀ v ∈ a.adds, (spawnValue D v.2).isSome) :
    ∃ heap' cur', a.apply D heap cur = some (heap', cur') ∧
      Cursor root heap' cur' c'.varTaked c'.braceCount ∧ Frame root heap heap' := by
  rcases Control.step_cases hstep with ⟨rfl, hvar, hbrace⟩ | ⟨v, rfl, hbrace⟩ |
    ⟨v, rfl, hvar, hbrace⟩ | ⟨rfl, hvar, hvar', hbrace⟩ | ⟨rfl, hbrace⟩
  · obtain ⟨node, hnode, -⟩ := h.node
    refine ⟨heap, cur, rfl, ⟨h.tidy, h.le, ⟨node, hnode, by simp [hvar]⟩, ?_⟩, .refl root heap⟩
    rw [hbrace]
    exact h.chain
  · obtain ⟨heap', hadd, hcursor, hframe⟩ := h.addVariable (hadds v rfl) v.1
    refine ⟨heap', cur, by simp [Action.apply, hadd, move], ?_, hframe⟩
    rw [hbrace]
    exact hcursor.weaken _
  · obtain ⟨heap₁, hadd, hcursor₁, hframe₁⟩ := h.addVariable (hadds v rfl) v.1
    obtain ⟨heap₂, child, hmove, hcursor₂, hframe₂⟩ := hcursor₁.descend
    refine ⟨heap₂, child, by simp [Action.apply, hadd, hmove], ?_, hframe₁.trans hframe₂⟩
    rw [hvar, hbrace]
    exact hcursor₂
  · rw [hvar] at h
    obtain ⟨heap', child, hmove, hcursor, hframe⟩ := h.descend
    refine ⟨heap', child, by simp [Action.apply, hmove], ?_, hframe⟩
    rw [hvar', hbrace]
    exact hcursor
  · rw [hbrace] at h
    obtain ⟨p, hmove, hcursor⟩ := h.ascend
    exact ⟨heap, p, by simp [Action.apply, hmove], hcursor.weaken _, .refl root heap⟩

/-- New nodes behind the old ones. -/
lemma Cursor.extend (h : Cursor root heap cur v b) (htidy : Tidy heap')
    (hframe : Frame heap.length heap heap') : Cursor root heap' cur v b := by
  obtain ⟨node, hnode, hne⟩ := h.node
  have hkeep : ∀ {i : ℕ} {node : Node F}, heap[i]? = some node → heap'[i]? = some node := by
    intro i node hnode
    rw [hframe.old i (List.getElem?_eq_some_iff.1 hnode).1]
    exact hnode
  refine ⟨htidy, h.le, ⟨node, hkeep hnode, hne⟩, ?_⟩
  exact h.chain.mono fun i _ node hnode => ⟨node, hkeep hnode, rfl, id⟩

lemma copyChilds_grown (heap : Heap F) (cur : ℕ) (src : Option ℕ) :
    ∃ ids, Grown cur ids heap (copyChilds heap cur src) ∧
      (copyChilds heap cur src).length = heap.length ∧
      ∀ k ∈ ids, ∃ r node, src = some r ∧ heap[r]? = some node ∧ k ∈ node.nodes := by
  unfold copyChilds
  split
  · next d s hd hs =>
    obtain ⟨r, hr, hnode⟩ := Option.bind_eq_some_iff.1 hs
    refine ⟨s.nodes, ⟨by simp, ?_, ?_⟩, by simp, fun k hk => ⟨r, s, hr, hnode, hk⟩⟩
    · exact fun i _ hne => List.getElem?_set_ne hne.symm
    · intro node hnode'
      obtain rfl := Option.some.inj (hd.symm.trans hnode')
      exact List.getElem?_set_self (List.getElem?_eq_some_iff.1 hd).1
  · exact ⟨[], .refl cur heap, rfl, by simp⟩

/-- The nodes of an included file become children of the current node. -/
lemma Cursor.copyChilds (h : Cursor root heap cur v b) {src : Option ℕ}
    (hsrc : ∀ r ∈ src, cur ≤ r) :
    Cursor root (copyChilds heap cur src) cur v b ∧ Frame root heap (copyChilds heap cur src) := by
  obtain ⟨ids, hgrown, hlen, hids⟩ := copyChilds_grown heap cur src
  have htidy : Tidy (Hive.copyChilds heap cur src) := by
    refine hgrown.tidy h.tidy ?_ ?_
    · intro k hk
      obtain ⟨r, node, hr, hnode, hk⟩ := hids k hk
      obtain ⟨hlt, hlt'⟩ := h.tidy r node hnode k hk
      exact ⟨(hsrc r hr).trans_lt hlt, hlen ▸ hlt'⟩
    · intro i node hi hnode
      rw [List.getElem?_eq_none (hlen ▸ hi)] at hnode
      cases hnode
  exact ⟨h.grown hgrown htidy v fun hv => .inl hv, hgrown.frame h.le h.lt⟩

end Tree

/-! ## A parsing that does not fault returns -/

section Defined

variable {F : Type} {D : Doubles F} {parseFile : CStr → Globals F → Except Stop (Parsed F)}
  {dir : CStr}

/-- What a call returns has new nodes only. -/
structure Fresh (heap : Heap F) (p : Parsed F) : Prop where
  tidy : Tidy p.globals.heap
  frame : Frame heap.length heap p.globals.heap
  root : ∀ r ∈ p.root, heap.length ≤ r

/-- The file is parsed, with or without an error. -/
def Returns (parseFile : CStr → Globals F → Except Stop (Parsed F)) (fn : CStr) : Prop :=
  ∀ g, Tidy g.heap → ∃ p, parseFile fn g = .ok p ∧ Fresh g.heap p

lemma includeFile_returns {root cur b : ℕ} {v : Bool} {token : CStr} {g : Globals F}
    (hreturns : Returns parseFile (includeName dir token)) (h : Cursor root g.heap cur v b) :
    ∃ g', includeFile parseFile dir cur token g = .ok g' ∧ Cursor root g'.heap cur v b ∧
      Frame root g.heap g'.heap := by
  obtain ⟨p, hp, hfresh⟩ := hreturns g h.tidy
  have hlt := h.lt
  have hle := h.le
  have hroot : ∀ r ∈ p.root, cur ≤ r := fun r hr => hlt.le.trans (hfresh.root r hr)
  obtain ⟨hcursor, hframe⟩ := (h.extend hfresh.tidy hfresh.frame).copyChilds hroot
  refine ⟨_, by simp only [includeFile, hp]; rfl, hcursor, .trans ?_ hframe⟩
  exact ⟨hfresh.frame.length, fun i hi => hfresh.frame.old i (by omega)⟩

/-- How `hive_parse_buf` has left the tree. -/
structure Built (root : ℕ) (heap : Heap F) (p : Parsed F) : Prop where
  eq : p.root = some root
  tidy : Tidy p.globals.heap
  frame : Frame root heap p.globals.heap

/-- Where the outline does not fault and the included files return, so does the parsing. -/
lemma parseLoop_returns {root fuel : ℕ} {c : Control} {cur : ℕ} {data : Option CStr}
    {g : Globals F} (hverdict : (outline D dir fuel c data).2 ≠ .fault)
    (hfiles : ∀ f ∈ (outline D dir fuel c data).1, Returns parseFile f)
    (h : Cursor root g.heap cur c.varTaked c.braceCount) :
    ∃ p, parseLoop D parseFile dir root fuel c cur data g = .ok p ∧ Built root g.heap p := by
  induction fuel generalizing c cur data g with
  | zero => exact absurd rfl hverdict
  | succ fuel ih =>
    have hturn := turn D parseFile dir root fuel c cur data g
    generalize outline D dir (fuel + 1) c data = o at hturn hverdict hfiles
    generalize parseLoop D parseFile dir root (fuel + 1) c cur data g = r at hturn ⊢
    cases hturn with
    | fault => exact absurd rfl hverdict
    | @ends v p _ _ hroot hheap => exact ⟨p, rfl, hroot, hheap ▸ h.tidy, hheap ▸ .refl _ _⟩
    | last token hheap =>
      obtain ⟨g', hg', hcursor, hframe⟩ :=
        includeFile_returns (hfiles _ List.mem_cons_self) (hheap.symm ▸ h)
      obtain ⟨hroot, hheap'⟩ := finishBuf_globals root c g'
      refine ⟨finishBuf root c g', by rw [hg']; rfl, hroot, ?_, ?_⟩
      · rw [hheap']
        exact hcursor.tidy
      · rw [hheap', ← hheap]
        exact hframe
    | more token data hheap =>
      obtain ⟨g', hg', hcursor, hframe⟩ :=
        includeFile_returns (hfiles _ List.mem_cons_self) (hheap.symm ▸ h)
      obtain ⟨p, hp, hbuilt⟩ :=
        ih hverdict (fun f hf => hfiles f (List.mem_cons_of_mem _ hf)) hcursor
      refine ⟨p, by rw [hg']; exact hp, hbuilt.eq, hbuilt.tidy, ?_⟩
      rw [← hheap]
      exact hframe.trans hbuilt.frame
    | @token line t c' a data hstep =>
      by_cases hadds : ∀ v ∈ a.adds, (spawnValue D v.2).isSome
      · rw [if_pos hadds] at hverdict hfiles
        obtain ⟨heap', cur', happly, hcursor, hframe⟩ := h.apply hstep hadds
        obtain ⟨p, hp, hbuilt⟩ :=
          ih (g := { g with heap := heap', line := line }) hverdict hfiles hcursor
        exact ⟨p, by rw [happly]; exact hp, hbuilt.eq, hbuilt.tidy, hframe.trans hbuilt.frame⟩
      · exact absurd (by rw [if_neg hadds]) hverdict

end Defined

/-! ## Loading -/

section Loading

variable {F : Type} {D : Doubles F} {files : List (CStr × CStr)} {fn : CStr} {fuel : ℕ}

/-- The root of a new tree is the current node. -/
lemma Cursor.start {heap : Heap F} (htidy : Tidy heap) (root : Node F) (hroot : root.nodes = []) :
    Cursor heap.length (heap ++ [root]) heap.length false 0 := by
  refine ⟨?_, le_rfl, ⟨root, by simp, by simp⟩, trivial⟩
  intro i node hnode k hk
  rcases lt_trichotomy i heap.length with hi | rfl | hi
  · rw [List.getElem?_append_left hi] at hnode
    obtain ⟨hlt, hlen⟩ := htidy i node hnode k hk
    refine ⟨hlt, hlen.trans_le ?_⟩
    simp
  · simp only [List.getElem?_concat_length, Option.some.injEq] at hnode
    rw [← hnode, hroot] at hk
    cases hk
  · have hlen : (heap ++ [root]).length ≤ i := by
      rw [List.length_append, List.length_singleton]
      exact hi
    rw [List.getElem?_eq_none hlen] at hnode
    cases hnode

/-- A file that was parsed follows its outline, and so were the files that it includes. -/
lemma parseFile_ok {g : Globals F} {p : Parsed F}
    (h : parseFile D (fun fn => files.lookup fn) (fuel + 1) fn g = .ok p) :
    (survey D files fn).2 ≠ .fault ∧
    (p.success = true ↔ (survey D files fn).2 = .success) ∧
    ∀ f ∈ (survey D files fn).1, ∃ g' q,
      parseFile D (fun fn => files.lookup fn) fuel f g' = .ok q := by
  rw [parseFile] at h
  rw [survey]
  cases hload : files.lookup fn with
  | none =>
    simp only [hload] at h ⊢
    obtain rfl := Except.ok.inj h
    simp
  | some data =>
    simp only [hload] at h ⊢
    by_cases hdir : 4096 ≤ (dirname fn).length
    · simp [hdir] at h
    rw [if_neg hdir] at h ⊢
    rw [parseBuf] at h
    split at h
    · cases h
    · exact parseLoop_ok h

/-- Where the survey does not fault and the included files return, so does the file. -/
lemma parseFile_returns (hverdict : (survey D files fn).2 ≠ .fault)
    (hfiles : ∀ f ∈ (survey D files fn).1,
      Returns (parseFile D (fun fn => files.lookup fn) fuel) f) :
    Returns (parseFile D (fun fn => files.lookup fn) (fuel + 1)) fn := by
  intro g htidy
  rw [survey] at hverdict hfiles
  rw [parseFile]
  cases hload : files.lookup fn with
  | none => exact ⟨_, rfl, htidy, .refl _ _, by simp⟩
  | some data =>
    simp only [hload] at hverdict hfiles ⊢
    by_cases hdir : 4096 ≤ (dirname fn).length
    · simp [hdir] at hverdict
    rw [if_neg hdir] at hverdict hfiles ⊢
    obtain ⟨value, hvalue⟩ : ∃ v, smartValue D "tree root".toList = some v := ⟨_, rfl⟩
    simp only [parseBuf, hvalue]
    obtain ⟨p, hp, hbuilt⟩ := parseLoop_returns
      (g := { g with heap := g.heap ++ [⟨0, "root".toList, value, [], none⟩], line := 0 })
      hverdict hfiles (Cursor.start htidy _ rfl)
    refine ⟨p, hp, hbuilt.tidy, ⟨?_, ?_⟩, ?_⟩
    · refine le_trans ?_ hbuilt.frame.length
      simp
    · intro i hi
      rw [hbuilt.frame.old i hi, List.getElem?_append_left hi]
    · intro r hr
      rw [hbuilt.eq, Option.mem_some_iff] at hr
      exact hr.le

/-- Where no call needs more depth than there is, the file is parsed. -/
lemma returns_of_within {f : CStr}
    (hfault : ∀ f', Reaches D files f f' → (survey D files f').2 ≠ .fault)
    (hwithin : IncludedWithin D files fuel f) :
    Returns (parseFile D (fun fn => files.lookup fn) fuel) f := by
  induction fuel generalizing f with
  | zero => exact hwithin.elim
  | succ fuel ih =>
    refine parseFile_returns (hfault f .refl) fun f' hinclude => ?_
    exact ih (fun f'' hf'' => hfault f'' (.head hinclude hf'')) (hwithin f' hinclude)

lemma not_includedWithin_zero (f : CStr) : ¬IncludedWithin D files 0 f := id

lemma IncludedWithin.includes (n : ℕ) (f f' : CStr) (h : IncludedWithin D files (n + 1) f)
    (hinclude : Includes D files f f') : IncludedWithin D files n f' := h f' hinclude

lemma IncludedWithin.reaches {n : ℕ} {f : CStr} (h : IncludedWithin D files n fn)
    (hf : Reaches D files fn f) : ∃ m, IncludedWithin D files m f :=
  exists_of_reflTransGen not_includedWithin_zero IncludedWithin.includes h hf

/-- Without circles the files below need no more depth than there are files. -/
lemma includedWithin_of_rank (hcycle : ∀ f, Reaches D files fn f → ¬TransGen (Includes D files) f f)
    {f : CStr} (hf : Reaches D files fn f)
    (hfuel : rank (Includes D files) (files.map Prod.fst).toFinset f + 2 ≤ fuel) :
    IncludedWithin D files fuel f := by
  induction fuel generalizing f with
  | zero => omega
  | succ fuel ih =>
    intro f' hinclude
    have hf' : Reaches D files fn f' := hf.tail hinclude
    by_cases hmem : f' ∈ (files.map Prod.fst).toFinset
    · have hlt := rank_lt hinclude hmem (hcycle f' hf')
      exact ih hf' (by omega)
    · -- a file that is not there includes nothing
      have hnone : files.lookup f' = none := by
        rw [List.lookup_eq_none_iff]
        rintro ⟨f, data⟩ hfile
        rw [bne_iff_ne]
        rintro rfl
        exact hmem (List.mem_toFinset.2 (List.mem_map_of_mem hfile))
      obtain ⟨k, rfl⟩ : ∃ k, fuel = k + 1 := ⟨fuel - 1, by omega⟩
      intro f'' hinclude'
      simp [Includes, survey, hnone] at hinclude'

/-- Some stack is large enough exactly when no file below is in a circle of includes. -/
theorem exists_includedWithin_iff : (∃ n, IncludedWithin D files n fn) ↔
    ∀ f, Reaches D files fn f → ¬TransGen (Includes D files) f f := by
  constructor
  · rintro ⟨n, hn⟩ f hf
    obtain ⟨m, hm⟩ := hn.reaches hf
    exact not_transGen_self not_includedWithin_zero IncludedWithin.includes hm
  · intro hcycle
    exact ⟨_, includedWithin_of_rank hcycle .refl le_rfl⟩

/-- A file that was parsed is not too deep for its stack, and the parser stays in its buffers. -/
lemma within_of_parseFile {n : ℕ} {f : CStr} {g : Globals F} {p : Parsed F}
    (h : parseFile D (fun fn => files.lookup fn) n f g = .ok p) :
    IncludedWithin D files n f ∧ ∀ f', Reaches D files f f' → (survey D files f').2 ≠ .fault := by
  induction n generalizing f g p with
  | zero => cases h
  | succ n ih =>
    obtain ⟨hfault, -, hfiles⟩ := parseFile_ok h
    constructor
    · intro f' hinclude
      obtain ⟨g', q, hq⟩ := hfiles f' hinclude
      exact (ih hq).1
    · intro f' hf'
      rcases hf'.cases_head with rfl | ⟨f'', hinclude, hf''⟩
      · exact hfault
      · obtain ⟨g', q, hq⟩ := hfiles f'' hinclude
        exact (ih hq).2 f' hf''

lemma load_success {line : ℕ} {error : CStr} {p : Parsed F}
    (h : load D files fuel fn line error = .ok p) :
    p.success = true ↔ (survey D files fn).2 = .success := by
  cases fuel with
  | zero => cases h
  | succ fuel => exact (parseFile_ok h).2.1

lemma loadOn_ok {stack : CallStack} {array line : ℕ} {error : CStr} {p : Parsed F} :
    loadOn D files stack array fn line error = .ok p ↔
      arraysFit D files stack array stack.calls fn ∧
      load D files stack.calls fn line error = .ok p := by
  unfold loadOn
  split_ifs with hfit
  · simp [hfit]
  · simp [hfit]

end Loading

/-- A file that includes one that is not there. -/
def missing : List (CStr × CStr) := [("d/a".toList, "#include \"b\"".toList)]

/-- A file that includes itself. -/
def circle : List (CStr × CStr) := [("d/a".toList, "#include \"a\"".toList)]

lemma survey_missing : survey noDoubles missing "d/a".toList = (["d/b".toList], .success) := by
  decide +kernel

lemma survey_circle : survey noDoubles circle "d/a".toList = (["d/a".toList], .success) := by
  decide +kernel

/-- Eight MiB, and the buffers of `hive_parse_file` and `hive_parse_buf`. -/
def usualStack : CallStack := ⟨2 ^ 23, 75776⟩

end WebTester.Hive
