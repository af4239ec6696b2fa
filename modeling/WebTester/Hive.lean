import WebTester.FlexVal
import WebTester.HiveScan

/-!
# Configurations

`hive_parse_buf` turns tokens into a tree of named values. It is driven by flags: whether a name or
a value is expected, which of them has been taken, and how many braces are open. Nodes are numbered
in the order in which they are allocated; a freed node is left where it is. What is done outside of
a buffer or through `NULL` is a fault.

`hive_open_key` looks a value up by a path of names.
-/
namespace WebTester.Hive
open CString Flexval

/-! ## Values -/

/-- Doubles that tell nothing, for runs without real numbers. -/
def noDoubles : Doubles Unit := ⟨fun _ => (), fun _ => 0, fun _ => (), fun _ _ => []⟩

section Values

variable {F : Type} (D : Doubles F)

/-- A value without quotes, "smart setting" in the source. -/
def smartValue (text : CStr) : Option (FlexVal F) :=
  if isInteger text then FlexVal.setInt D (flexvalAtol text) (FlexVal.create D)
  else if isNumber text then FlexVal.setFloat D (D.flexvalAtolf text) (FlexVal.create D)
  else FlexVal.setString D text (FlexVal.create D)

def stringValue (text : CStr) : Option (FlexVal F) :=
  FlexVal.setString D text (FlexVal.create D)

/-- A character between the elements of an array. -/
def isArrayGap (c : Char) : Bool := schar c ≤ 32 || schar c ≥ 127

/-- A quoted element after its opening quote; no end of line may stand in it. -/
def takeElement : CStr → Option (CStr × CStr)
  | [] => none
  | c :: rest =>
    if c = '"' then some ([], rest)
    else if c = '\n' then none
    else if c = '\\' then
      match rest with
      | [] => none
      | d :: rest =>
        if d = '\n' then none
        else (takeElement rest).map fun t => ((if d = 'r' then '\r' else unescape d) :: t.1, t.2)
    else (takeElement rest).map fun t => (c :: t.1, t.2)

/-- `unserialize_iterator`: the end, an error, or an element and the data after it. -/
def unserializeIterator (data : CStr) : Option (Option (Token × CStr)) :=
  match data.dropWhile isArrayGap with
  | [] => some none
  | '[' :: rest =>
    let t := takeArray 1 rest
    if t.closed then some (some (⟨t.text, false, true⟩, t.rest)) else none
  | '"' :: rest => (takeElement rest).map fun t => some (⟨t.1, true, false⟩, t.2)
  | data => some (some (⟨data.takeWhile (!isArrayGap ·), false, false⟩,
      data.dropWhile (!isArrayGap ·)))

/-- `flexval_unserialize` of an array without its brackets: the elements up to an error, and
whether there was one. -/
def unserialize : ℕ → CStr → List (FlexVal F) × Bool
  | 0, _ => ([], true)
  | fuel + 1, data =>
    match unserializeIterator data with
    | none => ([], true)
    | some none => ([], false)
    | some (some (t, rest)) =>
      let value : Option (FlexVal F) :=
        if t.array then
          let (elems, failed) := unserialize fuel t.text
          if failed then none
          else some ⟨0, D.ofLong 0, "Array".toList, .array, elems.length, elems⟩
        else if t.string then stringValue D t.text
        else smartValue D t.text
      match value with
      | none => ([], true)
      | some v =>
        let (elems, failed) := unserialize fuel rest
        (v.dup :: elems, failed)

/-- The value that `hive_spawn_new_node` sets. An array without elements has no data, and
`flexval_set_array` reads them through `NULL`. -/
def spawnValue (t : Token) : Option (FlexVal F) :=
  if t.string then stringValue D t.text
  else if t.array then
    match (unserialize D (t.text.length + 1) t.text).1 with
    | [] => none
    | elems => FlexVal.setArray D elems (FlexVal.create D)
  else smartValue D t.text

end Values

/-! ## The tree -/

/-- `hive_item_t`. No list of nodes is an empty one. -/
structure Node (F : Type) where
  index : ℕ
  name : CStr
  value : FlexVal F
  nodes : List ℕ
  parent : Option ℕ

abbrev Heap (F : Type) := List (Node F)

section Tree

variable {F : Type} (D : Doubles F) (heap : Heap F)

/-- `hive_add_variable` with `hive_spawn_new_node`. -/
def addVariable (cur : ℕ) (name : CStr) (t : Token) : Option (Heap F) := do
  let node ← heap[cur]?
  let value ← spawnValue D t
  return heap.set cur { node with nodes := node.nodes ++ [heap.length] } ++
    [⟨node.nodes.length, name, value, [], some cur⟩]

/-- `current_node` becomes its last child, or its parent. -/
inductive Move
  | stay
  | descend
  | ascend
  deriving DecidableEq, Repr

def move (cur : ℕ) : Move → Option (Heap F × ℕ)
  | .stay => some (heap, cur)
  | .descend => do
    let child ← (← heap[cur]?).nodes.getLast?
    let node ← heap[child]?
    return (heap.set child { node with parent := some cur }, child)
  | .ascend => do return (heap, ← (← heap[cur]?).parent)

/-- `hive_copy_childs`. -/
def copyChilds (dst : ℕ) (src : Option ℕ) : Heap F :=
  match heap[dst]?, src.bind (heap[·]?) with
  | some d, some s => heap.set dst { d with nodes := d.nodes ++ s.nodes }
  | _, _ => heap

end Tree

section Growth

variable {F : Type}

/-- Only the node `cur` has changed, by new children, and new nodes stand behind the old ones. -/
structure Grown (cur : ℕ) (ids : List ℕ) (heap heap' : Heap F) : Prop where
  length : heap.length ≤ heap'.length
  old : ∀ i < heap.length, i ≠ cur → heap'[i]? = heap[i]?
  cur : ∀ node, heap[cur]? = some node →
    heap'[cur]? = some { node with nodes := node.nodes ++ ids }

namespace Grown

variable {cur id : ℕ} {ids ids' : List ℕ} {h h' h'' : Heap F}

lemma refl (cur : ℕ) (h : Heap F) : Grown cur [] h h :=
  ⟨le_rfl, fun _ _ _ => rfl, fun node hnode => by simpa using hnode⟩

lemma trans (h₁ : Grown cur ids h h') (h₂ : Grown cur ids' h' h'') :
    Grown cur (ids ++ ids') h h'' where
  length := h₁.length.trans h₂.length
  old i hi hne := (h₂.old i (hi.trans_le h₁.length) hne).trans (h₁.old i hi hne)
  cur node hnode := by
    rw [h₂.cur _ (h₁.cur node hnode), List.append_assoc]

/-- What grows at a new node does not change the old ones. -/
lemma below (h₁ : Grown cur ids h h') (h₂ : Grown h.length ids' h' h'') : Grown cur ids h h'' where
  length := h₁.length.trans h₂.length
  old i hi hne := (h₂.old i (hi.trans_le h₁.length) hi.ne).trans (h₁.old i hi hne)
  cur node hnode := by
    have hcur : cur < h.length := (List.getElem?_eq_some_iff.1 hnode).1
    rw [h₂.old cur (hcur.trans_le h₁.length) hcur.ne]
    exact h₁.cur node hnode

end Grown

lemma addVariable_grown {D : Doubles F} {heap : Heap F} {cur : ℕ} {node : Node F} {t : Token}
    {v : FlexVal F} (hnode : heap[cur]? = some node) (hv : spawnValue D t = some v)
    (name : CStr) :
    ∃ heap', addVariable D heap cur name t = some heap' ∧ Grown cur [heap.length] heap heap' ∧
      heap'[heap.length]? = some ⟨node.nodes.length, name, v, [], some cur⟩ ∧
      heap'.length = heap.length + 1 := by
  have hcur : cur < heap.length := (List.getElem?_eq_some_iff.1 hnode).1
  have hadd : addVariable D heap cur name t =
      some (heap.set cur { node with nodes := node.nodes ++ [heap.length] } ++
        [⟨node.nodes.length, name, v, [], some cur⟩]) := by
    simp [addVariable, hnode, hv]
  refine ⟨_, hadd, ⟨by simp, ?_, ?_⟩, by simp, by simp⟩
  · intro i hi hne
    rw [List.getElem?_append_left (by simpa using hi), List.getElem?_set_ne hne.symm]
  · intro node' hnode'
    obtain rfl : node = node' := Option.some.inj (hnode.symm.trans hnode')
    rw [List.getElem?_append_left (by simpa using hcur), List.getElem?_set_self hcur]

end Growth

/-! ## The parser -/

/-- What is expected: a name (state 0) or a value (state 1). -/
inductive State
  | name
  | value
  deriving DecidableEq, Repr

structure Control where
  state : State
  nameTaked : Bool
  varTaked : Bool
  braceCount : ℕ
  varName : CStr
  deriving DecidableEq, Repr

/-- A token adds a variable, or not, and then moves. -/
structure Action where
  adds : Option (CStr × Token)
  move : Move
  deriving DecidableEq, Repr

def atLine (text : String) (line : ℕ) : CStr := text.toList ++ " at line ".toList ++ decimal line

namespace Control

def start : Control := ⟨.name, false, false, 0, []⟩

/-- An empty value with the flags of a token. -/
def empty (t : Token) : Token := { t with text := [] }

/-- What a token that is no directive does. -/
def step (c : Control) (line : ℕ) (t : Token) : Except CStr (Control × Action) :=
  match c.state with
  | .name =>
    if t.text.head? = some '{' then
      if !c.nameTaked && !c.varTaked then .error (atLine "Invalid opening bracket" line)
      else .ok (⟨.name, false, false, c.braceCount + 1, c.varName⟩,
        ⟨if c.nameTaked then some (c.varName, empty t) else none, .descend⟩)
    else if t.text.head? = some '}' then
      if c.braceCount = 0 || (c.nameTaked && !c.varTaked) then
        .error (atLine "Invalid closing bracket" line)
      else .ok ({ c with braceCount := c.braceCount - 1 }, ⟨none, .ascend⟩)
    else .ok (⟨.value, true, false, c.braceCount, t.text⟩, ⟨none, .stay⟩)
  | .value =>
    if t.text.head? = some '{' && !t.array then
      if !c.nameTaked then .error (atLine "Invalid opening bracket" line)
      else .ok (⟨.name, false, false, c.braceCount + 1, c.varName⟩,
        ⟨some (c.varName, empty t), .descend⟩)
    else if t.text.head? = some '}' && !t.array then
      if c.braceCount = 0 || !c.varTaked then .error (atLine "Invalid closing bracket" line)
      else .ok ({ c with state := .name, braceCount := c.braceCount - 1 }, ⟨none, .ascend⟩)
    else .ok ({ c with state := .name, nameTaked := false, varTaked := true },
      ⟨some (c.varName, t), .stay⟩)

/-- The line number is only read for the text of an error. -/
lemma step_line {c : Control} {t : Token} {line : ℕ} {r : Control × Action}
    (h : c.step line t = .ok r) (line' : ℕ) : c.step line' t = .ok r := by
  unfold step at h ⊢
  split at h <;> split_ifs at h ⊢ <;> exact h

/-- What is wrong at the end of the data. -/
def finish (c : Control) (line : ℕ) : Option CStr :=
  if c.braceCount ≠ 0 then some "No enough closing brackets".toList
  else if c.nameTaked then some (atLine "Variable vithout value" line)
  else none

end Control

/-- What outlives a call: the nodes, the static line number and the text of the last error. -/
structure Globals (F : Type) where
  heap : Heap F
  line : ℕ
  error : CStr

inductive Stop
  | fuel
  | fault
  deriving DecidableEq, Repr

/-- Zero or not, the root, and what the call has left. -/
structure Parsed (F : Type) where
  success : Bool
  root : Option ℕ
  globals : Globals F

/-- The text before the last slash. -/
def dirname (fn : CStr) : CStr := (fn.reverse.dropWhile (· ≠ '/')).tail.reverse

/-- The file that `#include` names. -/
def includeName (dir token : CStr) : CStr :=
  if token.head? = some '/' then token else (dir ++ '/' :: token).take 4095

/-- The text in the buffer of a token, in which `#include` was, after an array without an end has
been written over it. What is behind `#include` is not known. -/
def leftover (text : CStr) : Option CStr :=
  if text = [] then some []
  else if text.length ≤ "#include".length then some (text ++ "#include".toList.drop text.length)
  else none

section Parser

variable {F : Type} (D : Doubles F)

/-- An action of the parser on the tree. -/
def Action.apply (a : Action) (heap : Heap F) (cur : ℕ) : Option (Heap F × ℕ) := do
  let heap ← match a.adds with
    | none => some heap
    | some (name, t) => addVariable D heap cur name t
  Hive.move heap cur a.move

variable (parseFile : CStr → Globals F → Except Stop (Parsed F)) (dir : CStr)

/-- The branch of `#include`: what the file gives is added to the current node, whether it could be
parsed or not. -/
def includeFile (cur : ℕ) (token : CStr) (g : Globals F) : Except Stop (Globals F) := do
  let p ← parseFile (includeName dir token) g
  return { p.globals with heap := copyChilds p.globals.heap cur p.root }

/-- The end of `hive_parse_buf`. -/
def finishBuf (root : ℕ) (c : Control) (g : Globals F) : Parsed F :=
  match c.finish g.line with
  | some error => ⟨false, some root, { g with error := error }⟩
  | none => ⟨true, some root, g⟩

/-- The loop of `hive_parse_buf` over the tokens. -/
def parseLoop (root : ℕ) : ℕ → Control → ℕ → Option CStr → Globals F → Except Stop (Parsed F)
  | 0, _, _, _, _ => .error .fuel
  | fuel + 1, c, cur, data, g =>
    let fail (line : ℕ) (text : String) : Except Stop (Parsed F) :=
      .ok ⟨false, some root, { g with line := line, error := atLine text line }⟩
    match scan data with
    | .fault => .error .fault
    | .finished lines => .ok (finishBuf root c { g with line := g.line + lines })
    | .unended _ lines => fail (g.line + lines) "Unexpected end of file"
    | .token t lines data =>
      let line := g.line + lines
      if t.array && c.state ≠ .value then fail line "Unexpected array"
      else if t.text.head? = some '#' && !t.string then
        if t.text = "#include".toList then
          match scan data with
          | .fault => .error .fault
          | .finished lines => do
            let g ← includeFile parseFile dir cur [] { g with line := line + lines }
            return finishBuf root c g
          -- the error is not looked at, and the next iteration clears it at the end of the data
          | .unended text lines =>
            match leftover text with
            | none => .error .fault
            | some token => do
              let g ← includeFile parseFile dir cur token { g with line := line + lines }
              return finishBuf root c g
          | .token t lines data => do
            let g ← includeFile parseFile dir cur t.text { g with line := line + lines }
            parseLoop root fuel c cur data g
        else fail line "Invalid preprocessor derictive"
      else
        match c.step line t with
        | .error error => .ok ⟨false, some root, { g with line := line, error := error }⟩
        | .ok (c, action) =>
          match action.apply D g.heap cur with
          | none => .error .fault
          | some (heap, cur) => parseLoop root fuel c cur data { g with heap := heap, line := line }

/-- `hive_parse_buf`. -/
def parseBuf (data : CStr) (g : Globals F) : Except Stop (Parsed F) :=
  match smartValue D "tree root".toList with
  | none => .error .fault
  | some value =>
    parseLoop D parseFile dir g.heap.length (data.length + 1) Control.start g.heap.length
      (some data) { g with heap := g.heap ++ [⟨0, "root".toList, value, [], none⟩], line := 0 }

end Parser

/-- `hive_parse_file`; `load` is what `fload` gives for a name. The fuel bounds how deep files are
included. -/
def parseFile {F : Type} (D : Doubles F) (load : CStr → Option CStr) :
    ℕ → CStr → Globals F → Except Stop (Parsed F)
  | 0, _, _ => .error .fuel
  | fuel + 1, fn, g =>
    match load fn with
    | none => .ok ⟨false, none, { g with error := "Unable to load buffer from file".toList }⟩
    | some data =>
      if 4096 ≤ (dirname fn).length then .error .fault
      else parseBuf D (parseFile D load fuel) (dirname fn) data g

section Fuel

variable {F : Type} {D : Doubles F} {parseFile : CStr → Globals F → Except Stop (Parsed F)}
  {dir : CStr}

lemma scan_length {data rest : Option CStr} {t : Token} {lines : ℕ}
    (h : scan data = .token t lines rest) : (rest.getD []).length < (data.getD []).length := by
  cases data with
  | none => cases h
  | some data =>
    cases rest with
    | none =>
      cases data with
      | nil => cases h
      | cons c data => exact Nat.succ_pos _
    | some rest => exact parserIteration_length h

/-- The loop never runs out of its own fuel: every token takes a part of the data. -/
theorem parseLoop_fuel {root fuel fuel' : ℕ} {c : Control} {cur : ℕ} {data : Option CStr}
    {g : Globals F} (h : (data.getD []).length < fuel) (h' : (data.getD []).length < fuel') :
    parseLoop D parseFile dir root fuel c cur data g =
      parseLoop D parseFile dir root fuel' c cur data g := by
  induction fuel generalizing fuel' c cur data g with
  | zero => omega
  | succ fuel ih =>
    obtain ⟨fuel', rfl⟩ : ∃ k, fuel' = k + 1 := ⟨fuel' - 1, by omega⟩
    rw [parseLoop, parseLoop]
    cases hscan : scan data with
    | fault | finished | unended => rfl
    | token t lines rest =>
      have hrest := scan_length hscan
      dsimp only
      split_ifs
      · rfl
      · cases hname : scan rest with
        | fault | finished | unended => rfl
        | token t' lines' rest' =>
          have hrest' := scan_length hname
          exact bind_congr fun g => ih (by omega) (by omega)
      · rfl
      · split
        · rfl
        · split
          · rfl
          · exact ih (by omega) (by omega)

end Fuel

/-! ## Looking up -/

/-- The digits of an index before the closing bracket, from the place `i` down to the opening one:
its place and the index. -/
def arrayIndexLoop (key : CStr) (lastSlash : ℕ) : ℕ → ℤ → ℤ → Option (ℕ × ℤ)
  | 0, _, _ => none
  | i + 1, index, mult =>
    let c := key.getD (i + 1) nul
    if i + 1 ≤ lastSlash then none
    else if c = '[' then
      if key.getD i nul = '\\' ∨ lastSlash = i then none else some (i + 1, index)
    else if c.isDigit then
      arrayIndexLoop key lastSlash i (toInt (index + (c.toNat - '0'.toNat : ℤ) * mult))
        (toInt (mult * 10))
    else none

/-- `get_array_index`: the index, if there is one, and the key without it. -/
def getArrayIndex (key : CStr) : Option ℤ × CStr :=
  -- the place of the last slash, or 0
  let lastSlash := (dirname key).length
  if key.getD (key.length - 1) nul ≠ ']' ∨ key.getD (key.length - 2) nul = '\\' then (none, key)
  else
    match arrayIndexLoop key lastSlash (key.length - 2) 0 1 with
    | none => (none, key)
    | some (i, index) => (some index, key.take i)

def stripslashes : CStr → CStr
  | [] => []
  | '\\' :: [] => []
  | '\\' :: c :: rest => (if c = 'r' then '\r' else unescape c) :: stripslashes rest
  | c :: rest => c :: stripslashes rest

section Lookup

variable {F : Type} (heap : Heap F)

/-- `hive_find_item`: the first item with the name before the first slash, and then what is after
the slash in its nodes. -/
def findItem : ℕ → List ℕ → CStr → Option ℕ
  | 0, _, _ => none
  | fuel + 1, items, key => do
    let item ← items.find? fun i => (heap[i]?).map Node.name = some (key.takeWhile (· ≠ '/'))
    let suffix := (key.dropWhile (· ≠ '/')).tail
    if suffix = [] then return item
    else findItem fuel (← heap[item]?).nodes suffix

/-- The size of the buffer for a key with `root/` before it. -/
def keySize : ℕ := 65536

/-- `hive_open_key`. The key is printed into the buffer with its NUL, however long it is. -/
def openKey (items : List ℕ) (key : CStr) : Except Stop (Option (FlexVal F)) :=
  let dummy := "root/".toList ++ key
  if keySize ≤ dummy.length then .error .fault
  else
    let (index, dummy) := getArrayIndex dummy
    let dummy := stripslashes dummy
    match (findItem heap (dummy.length + 1) items dummy).bind (heap[·]?) with
    | none => .ok none
    | some node =>
      match index with
      | none => .ok (some node.value)
      | some index =>
        if 0 ≤ index then
          .ok (if index < node.value.length then node.value.data[index.toNat]? else none)
        else .ok (some node.value)

end Lookup

end WebTester.Hive
