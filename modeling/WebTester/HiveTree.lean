import WebTester.CallStack
import WebTester.Hive

/-!
# Parsing and looking up a configuration

A configuration is an ordered tree. Its text has a quoted name for every node, a quoted value
where there is one, and braces around the children of a section; white space may stand between.
The parser builds the tree in the heap, and `hive_open_key` finds the first child with each name
of a path, as long as the path fits into its buffer.
-/
namespace WebTester.Hive
open CString Flexval

inductive Conf
  | leaf (name value : CStr)
  | group (name : CStr) (value : Option CStr) (children : List Conf)

/-- What stands in the text of a configuration. -/
inductive Word
  | text (s : CStr)
  | opening
  | closing

namespace Word

def spell : Word → CStr
  | .text s => quote s
  | .opening => ['{']
  | .closing => ['}']

def token : Word → Token
  | .text s => ⟨s, true, false⟩
  | .opening => ⟨['{'], false, false⟩
  | .closing => ⟨['}'], false, false⟩

end Word

namespace Conf

def name : Conf → CStr
  | .leaf name _ => name
  | .group name _ _ => name

def children : Conf → List Conf
  | .leaf _ _ => []
  | .group _ _ children => children

/-- The value of a node; a section without one gets the number that an empty text stands for. -/
def value {F : Type} (D : Doubles F) : Conf → Option (FlexVal F)
  | .leaf _ value => FlexVal.setString D value (FlexVal.create D)
  | .group _ (some value) _ => FlexVal.setString D value (FlexVal.create D)
  | .group _ none _ => FlexVal.setInt D 0 (FlexVal.create D)

mutual

def words : Conf → List Word
  | .leaf name value => [.text name, .text value]
  | .group name value children =>
    .text name :: value.toList.map .text ++ .opening :: wordsAll children ++ [.closing]

def wordsAll : List Conf → List Word
  | [] => []
  | c :: cs => c.words ++ wordsAll cs

end

/-- The first child with each name of a path. -/
def find : List Conf → List CStr → Option Conf
  | _, [] => none
  | cs, [n] => cs.find? (·.name = n)
  | cs, n :: ns => (cs.find? (·.name = n)).bind fun c => find c.children ns

/-- How many names of a path are looked up: all of them, or those up to one that is missing. -/
def lookups : List Conf → List CStr → ℕ
  | _, [] => 0
  | cs, n :: ns =>
    match cs.find? (·.name = n) with
    | none => 1
    | some c => lookups c.children ns + 1

end Conf

/-- A text with these words, and white space before, between and after them. -/
inductive Spells : List Word → CStr → Prop
  | nil {w : CStr} : (∀ c ∈ w, isSpace c) → Spells [] w
  | cons {w : CStr} {word : Word} {words : List Word} {rest : CStr} :
      (∀ c ∈ w, isSpace c) → Spells words rest → Spells (word :: words) (w ++ word.spell ++ rest)

/-- A name or value fits into the buffer for tokens and is no brace. -/
structure Fits (s : CStr) : Prop where
  short : s.length < 1024
  string : nul ∉ s
  opening : s.head? ≠ some '{'
  closing : s.head? ≠ some '}'

instance (s : CStr) : Decidable (Fits s) :=
  decidable_of_iff (s.length < 1024 ∧ nul ∉ s ∧ s.head? ≠ some '{' ∧ s.head? ≠ some '}')
    ⟨fun h => ⟨h.1, h.2.1, h.2.2.1, h.2.2.2⟩, fun h => ⟨h.1, h.2, h.3, h.4⟩⟩

/-- A name that can stand in a path. -/
structure Plain (n : CStr) : Prop where
  nonempty : n ≠ []
  slash : '/' ∉ n
  backslash : '\\' ∉ n
  bracket : ']' ∉ n

instance (n : CStr) : Decidable (Plain n) :=
  decidable_of_iff (n ≠ [] ∧ '/' ∉ n ∧ '\\' ∉ n ∧ ']' ∉ n)
    ⟨fun h => ⟨h.1, h.2.1, h.2.2.1, h.2.2.2⟩, fun h => ⟨h.1, h.2, h.3, h.4⟩⟩

mutual

def Conf.Legal : Conf → Prop
  | .leaf name value => Fits name ∧ Plain name ∧ Fits value
  | .group name value children =>
    Fits name ∧ Plain name ∧ (∀ v ∈ value, Fits v) ∧ Conf.LegalAll children

def Conf.LegalAll : List Conf → Prop
  | [] => True
  | c :: cs => c.Legal ∧ Conf.LegalAll cs

end

section Building

variable {F : Type} (D : Doubles F)

mutual

/-- A node of the heap is the root of a tree, below a parent at an index. -/
def Holds (heap : Heap F) (id parent index : ℕ) : Conf → Prop
  | .leaf name value => parent < id ∧ ∃ v, (Conf.leaf name value).value D = some v ∧
      heap[id]? = some ⟨index, name, v, [], some parent⟩
  | .group name value children => parent < id ∧ ∃ v nodes,
      (Conf.group name value children).value D = some v ∧
      heap[id]? = some ⟨index, name, v, nodes, some parent⟩ ∧ HoldsAll heap id 0 nodes children

/-- Nodes of the heap are the roots of trees, from an index on. -/
def HoldsAll (heap : Heap F) (parent index : ℕ) (ids : List ℕ) : List Conf → Prop
  | [] => ids = []
  | c :: cs => ∃ id ids', ids = id :: ids' ∧ Holds heap id parent index c ∧
      HoldsAll heap parent (index + 1) ids' cs

end

/-- The words as the parser takes them. -/
def runWords : Control → ℕ → Heap F → List Word → Option (Control × ℕ × Heap F)
  | c, cur, heap, [] => some (c, cur, heap)
  | c, cur, heap, word :: words =>
    match c.step 0 word.token with
    | .error _ => none
    | .ok (c, action) =>
      (action.apply D heap cur).bind fun (heap, cur) => runWords c cur heap words

end Building

/-! ## From the text to the words -/

namespace Word

def Fits : Word → Prop
  | .text s => Hive.Fits s
  | _ => True

lemma parserIteration_spell {word : Word} (hword : word.Fits) {w : CStr}
    (hw : ∀ c ∈ w, isSpace c) (rest : CStr) :
    ∃ lines, parserIteration (w ++ word.spell ++ rest) = .token word.token lines (some rest) := by
  cases word with
  | text s => exact parserIteration_quote hw hword.string hword.short rest
  | opening => exact parserIteration_brace hw (.inl rfl) rest
  | closing => exact parserIteration_brace hw (.inr rfl) rest

lemma token_array (word : Word) : word.token.array = false := by
  cases word <;> rfl

lemma token_directive (word : Word) :
    (word.token.text.head? = some '#' && !word.token.string) = false := by
  cases word with
  | text s => simp [token]
  | opening | closing => rfl

end Word

section Parsing

variable {F : Type} {D : Doubles F}

/-- The parser goes through a text as through its words. -/
lemma parseLoop_spells {parseFile : CStr → Globals F → Except Stop (Parsed F)} {dir : CStr}
    {root : ℕ} {words : List Word} {text : CStr} (htext : Spells words text) (fuel : ℕ)
    (hfuel : words.length < fuel) {c c' : Control} {cur cur' : ℕ} (g : Globals F) {heap : Heap F}
    (hfits : ∀ w ∈ words, w.Fits) (hrun : runWords D c cur g.heap words = some (c', cur', heap))
    (hend : c'.braceCount = 0 ∧ c'.nameTaked = false) :
    ∃ line, parseLoop D parseFile dir root fuel c cur (some text) g =
      .ok ⟨true, some root, { g with heap := heap, line := line }⟩ := by
  induction htext generalizing fuel c cur g with
  | nil hw =>
    obtain ⟨fuel, rfl⟩ := Nat.exists_eq_add_of_lt hfuel
    obtain ⟨lines, hscan⟩ := parserIteration_end hw
    obtain ⟨rfl, rfl, rfl⟩ : c = c' ∧ cur = cur' ∧ g.heap = heap := by
      simpa [runWords] using hrun
    refine ⟨g.line + lines, ?_⟩
    simp [parseLoop, scan, hscan, finishBuf, Control.finish, hend]
  | @cons w word words rest hw _ ih =>
    obtain ⟨fuel, rfl⟩ := Nat.exists_eq_add_of_lt hfuel
    obtain ⟨lines, hscan⟩ := Word.parserIteration_spell (hfits word List.mem_cons_self) hw rest
    rw [runWords] at hrun
    cases hstep : c.step 0 word.token with
    | error e => simp [hstep] at hrun
    | ok r =>
      obtain ⟨c₁, action⟩ := r
      rw [hstep] at hrun
      obtain ⟨⟨heap₁, cur₁⟩, happly, hrun⟩ := Option.bind_eq_some_iff.1 hrun
      have hline := Control.step_line hstep (g.line + lines)
      have hfuel' : words.length < (word :: words).length + fuel := by
        rw [List.length_cons]
        omega
      obtain ⟨line, hloop⟩ := ih _ hfuel' { g with heap := heap₁, line := g.line + lines }
        (fun w hw => hfits w (List.mem_cons_of_mem word hw)) hrun
      refine ⟨line, ?_⟩
      rw [parseLoop]
      simp only [scan, hscan, Word.token_array, Word.token_directive, hline, happly,
        Bool.false_and, Bool.false_eq_true, if_false]
      exact hloop

/-! ## From the words to the heap -/

lemma runWords_append {c : Control} {cur : ℕ} {heap : Heap F} (ws ws' : List Word) :
    runWords D c cur heap (ws ++ ws') =
      (runWords D c cur heap ws).bind fun (c, cur, heap) => runWords D c cur heap ws' := by
  induction ws generalizing c cur heap with
  | nil => rfl
  | cons word ws ih =>
    simp only [List.cons_append, runWords]
    cases c.step 0 word.token with
    | error e => rfl
    | ok r =>
      obtain ⟨c, action⟩ := r
      dsimp only
      rw [Option.bind_assoc]
      congr 1
      funext ⟨heap, cur⟩
      exact ih

lemma runWords_of_append {c c' : Control} {cur cur' : ℕ} {heap heap' : Heap F} {ws : List Word}
    (h : runWords D c cur heap ws = some (c', cur', heap')) (ws' : List Word) :
    runWords D c cur heap (ws ++ ws') = runWords D c' cur' heap' ws' := by
  rw [runWords_append, h]
  rfl

lemma setString_create (s : CStr) : ∃ v, FlexVal.setString D s (FlexVal.create D) = some v :=
  ⟨_, rfl⟩

lemma setInt_create (x : ℤ) : ∃ v, FlexVal.setInt D x (FlexVal.create D) = some v :=
  ⟨_, rfl⟩

lemma spawnValue_empty :
    spawnValue D ⟨[], false, false⟩ = FlexVal.setInt D 0 (FlexVal.create D) := by
  have hsmart : smartValue D [] = FlexVal.setInt D (flexvalAtol []) (FlexVal.create D) := rfl
  rw [flexvalAtol_nil] at hsmart
  exact hsmart

section Steps

variable {c c' : Control} {cur : ℕ} {heap : Heap F} {n v : CStr}

lemma runWords_cons {word : Word} {a : Action} (h : c.step 0 word.token = .ok (c', a))
    (ws : List Word) :
    runWords D c cur heap (word :: ws) =
      (a.apply D heap cur).bind fun (heap, cur) => runWords D c' cur heap ws := by
  rw [runWords, h]

/-- Before a name. -/
structure Control.Ready (c : Control) : Prop where
  state : c.state = .name
  name : c.nameTaked = false

lemma step_name (hc : c.Ready) (hn : Fits n) :
    c.step 0 (Word.text n).token = .ok (⟨.value, true, false, c.braceCount, n⟩, ⟨none, .stay⟩) := by
  simp [Control.step, Word.token, hc.state, hn.opening, hn.closing]

lemma step_value (b : ℕ) (hv : Fits v) :
    Control.step ⟨.value, true, false, b, n⟩ 0 (Word.text v).token =
      .ok (⟨.name, false, true, b, n⟩, ⟨some (n, ⟨v, true, false⟩), .stay⟩) := by
  simp [Control.step, Word.token, hv.opening, hv.closing]

lemma step_closing (hc : c.Ready) {b : ℕ} (hb : c.braceCount = b + 1) :
    c.step 0 Word.closing.token = .ok ({ c with braceCount := b }, ⟨none, .ascend⟩) := by
  simp [Control.step, Word.token, hc.state, hc.name, hb]

lemma runWords_name (hc : c.Ready) (hn : Fits n) (ws : List Word) :
    runWords D c cur heap (.text n :: ws) =
      runWords D ⟨.value, true, false, c.braceCount, n⟩ cur heap ws :=
  runWords_cons (step_name hc hn) ws

lemma runWords_value (b : ℕ) (hv : Fits v) {heap' : Heap F}
    (hadd : addVariable D heap cur n ⟨v, true, false⟩ = some heap') (ws : List Word) :
    runWords D ⟨.value, true, false, b, n⟩ cur heap (.text v :: ws) =
      runWords D ⟨.name, false, true, b, n⟩ cur heap' ws := by
  rw [runWords_cons (step_value b hv)]
  simp [Action.apply, hadd, move]

/-- A node whose last child is new becomes the parent of it again. -/
lemma move_descend {child : ℕ} {node new : Node F} {ids : List ℕ}
    (hnode : heap[cur]? = some { node with nodes := ids ++ [child] })
    (hchild : heap[child]? = some new) (hparent : new.parent = some cur) :
    move heap cur .descend = some (heap, child) := by
  have hnew : { new with parent := some cur } = new := by
    rw [← hparent]
  have hset : heap.set child new = heap := by
    obtain ⟨hlt, hget⟩ := List.getElem?_eq_some_iff.1 hchild
    rw [← hget, List.set_getElem_self]
  simp [move, hnode, hchild, hnew, hset]

/-- The name, the value and the opening brace of a section. -/
lemma runWords_header (hc : c.Ready) {value : Option CStr} (hn : Fits n)
    (hv : ∀ v ∈ value, Fits v) (children : List Conf) {node : Node F}
    (hnode : heap[cur]? = some node) :
    ∃ v heap', (Conf.group n value children).value D = some v ∧
      runWords D c cur heap (.text n :: value.toList.map .text ++ [.opening]) =
        some (⟨.name, false, false, c.braceCount + 1, n⟩, heap.length, heap') ∧
      Grown cur [heap.length] heap heap' ∧ heap'.length = heap.length + 1 ∧
      heap'[heap.length]? = some ⟨node.nodes.length, n, v, [], some cur⟩ := by
  cases value with
  | none =>
    obtain ⟨v, hvalue⟩ : ∃ v, FlexVal.setInt D 0 (FlexVal.create D) = some v := setInt_create 0
    obtain ⟨heap', hadd, hgrown, hnew, hlen⟩ :=
      addVariable_grown hnode (spawnValue_empty.trans hvalue) n
    have hmove := move_descend (hgrown.cur node hnode) hnew rfl
    refine ⟨v, heap', hvalue, ?_, hgrown, hlen, hnew⟩
    simp only [Option.toList_none, List.map_nil, List.cons_append, List.nil_append]
    have hstep : Control.step ⟨.value, true, false, c.braceCount, n⟩ 0 Word.opening.token =
        .ok (⟨.name, false, false, c.braceCount + 1, n⟩,
          ⟨some (n, ⟨[], false, false⟩), .descend⟩) := rfl
    rw [runWords_name hc hn, runWords_cons hstep]
    simp [Action.apply, hadd, hmove, runWords]
  | some text =>
    obtain ⟨v, hvalue⟩ : ∃ v, FlexVal.setString D text (FlexVal.create D) = some v :=
      setString_create text
    have hspawn : spawnValue D ⟨text, true, false⟩ = some v := hvalue
    obtain ⟨heap', hadd, hgrown, hnew, hlen⟩ := addVariable_grown hnode hspawn n
    have hmove := move_descend (hgrown.cur node hnode) hnew rfl
    refine ⟨v, heap', hvalue, ?_, hgrown, hlen, hnew⟩
    simp only [Option.toList_some, List.map_cons, List.map_nil, List.cons_append, List.nil_append]
    have hstep : Control.step ⟨.name, false, true, c.braceCount, n⟩ 0 Word.opening.token =
        .ok (⟨.name, false, false, c.braceCount + 1, n⟩, ⟨none, .descend⟩) := rfl
    rw [runWords_name hc hn, runWords_value _ (hv text rfl) hadd, runWords_cons hstep]
    simp [Action.apply, hmove, runWords]

end Steps

section Frame

variable {base : ℕ} {heap heap' : Heap F}

mutual

/-- A tree stays where it is when no node behind `base` changes. -/
theorem Holds.frame (hframe : ∀ i, base < i → i < heap.length → heap'[i]? = heap[i]?)
    {id parent index : ℕ} (hbase : base ≤ parent) :
    ∀ t : Conf, Holds D heap id parent index t → Holds D heap' id parent index t
  | .leaf name value, h => by
    obtain ⟨hlt, v, hv, hid⟩ := h
    have hid' := hframe id (by omega) (List.getElem?_eq_some_iff.1 hid).1
    exact ⟨hlt, v, hv, hid'.trans hid⟩
  | .group name value children, h => by
    obtain ⟨hlt, v, nodes, hv, hid, hall⟩ := h
    have hid' := hframe id (by omega) (List.getElem?_eq_some_iff.1 hid).1
    exact ⟨hlt, v, nodes, hv, hid'.trans hid, HoldsAll.frame hframe (by omega) children hall⟩

theorem HoldsAll.frame (hframe : ∀ i, base < i → i < heap.length → heap'[i]? = heap[i]?)
    {parent index : ℕ} {ids : List ℕ} (hbase : base ≤ parent) :
    ∀ ts : List Conf, HoldsAll D heap parent index ids ts → HoldsAll D heap' parent index ids ts
  | [], h => h
  | t :: ts, h => by
    obtain ⟨id, ids', hids, ht, hts⟩ := h
    exact ⟨id, ids', hids, Holds.frame hframe hbase t ht, HoldsAll.frame hframe hbase ts hts⟩

end

end Frame

mutual

/-- The words of a tree make a new last child of the current node, and the tree below it. -/
theorem runWords_words :
    ∀ (t : Conf), t.Legal → ∀ {c : Control} {cur : ℕ} {heap : Heap F} {node : Node F},
      c.Ready → heap[cur]? = some node →
      ∃ c' heap', runWords D c cur heap t.words = some (c', cur, heap') ∧ c'.Ready ∧
        c'.braceCount = c.braceCount ∧ Grown cur [heap.length] heap heap' ∧
        Holds D heap' heap.length cur node.nodes.length t
  | .leaf name value, hlegal, c, cur, heap, node, hc, hnode => by
    obtain ⟨hname, -, hvalue⟩ := hlegal
    obtain ⟨v, hv⟩ : ∃ v, FlexVal.setString D value (FlexVal.create D) = some v :=
      setString_create value
    have hspawn : spawnValue D ⟨value, true, false⟩ = some v := hv
    obtain ⟨heap', hadd, hgrown, hnew, hlen⟩ := addVariable_grown hnode hspawn name
    have hcur : cur < heap.length := (List.getElem?_eq_some_iff.1 hnode).1
    refine ⟨⟨.name, false, true, c.braceCount, name⟩, heap', ?_, ⟨rfl, rfl⟩, rfl, hgrown, ?_⟩
    · rw [Conf.words, runWords_name hc hname, runWords_value _ hvalue hadd]
      rfl
    · exact ⟨hcur, v, hv, hnew⟩
  | .group name value children, hlegal, c, cur, heap, node, hc, hnode => by
    obtain ⟨hname, -, hvalue, hchildren⟩ := hlegal
    obtain ⟨v, heap₁, hv, hheader, hgrown, hlen, hnew⟩ :=
      runWords_header hc hname hvalue children hnode
    obtain ⟨c₂, heap₂, ids, hrun, hc₂, hbrace, hgrown₂, hall⟩ :=
      runWords_wordsAll children hchildren (c := ⟨.name, false, false, c.braceCount + 1, name⟩)
        ⟨rfl, rfl⟩ hnew
    have hid := hgrown₂.cur _ hnew
    have hcur : cur < heap.length := (List.getElem?_eq_some_iff.1 hnode).1
    refine ⟨{ c₂ with braceCount := c.braceCount }, heap₂, ?_, ⟨hc₂.state, hc₂.name⟩, rfl,
      hgrown.below hgrown₂, hcur, v, ids, hv, by simpa using hid, by simpa using hall⟩
    have hwords : (Conf.group name value children).words =
        (.text name :: value.toList.map .text ++ [.opening]) ++
          (Conf.wordsAll children ++ [.closing]) := by
      simp [Conf.words]
    rw [hwords, runWords_of_append hheader, runWords_of_append hrun,
      runWords_cons (step_closing hc₂ hbrace)]
    simp [Action.apply, move, hid, runWords]

theorem runWords_wordsAll :
    ∀ (ts : List Conf), Conf.LegalAll ts →
      ∀ {c : Control} {cur : ℕ} {heap : Heap F} {node : Node F},
      c.Ready → heap[cur]? = some node →
      ∃ c' heap' ids, runWords D c cur heap (Conf.wordsAll ts) = some (c', cur, heap') ∧
        c'.Ready ∧ c'.braceCount = c.braceCount ∧ Grown cur ids heap heap' ∧
        HoldsAll D heap' cur node.nodes.length ids ts
  | [], _, c, cur, heap, node, hc, hnode =>
    ⟨c, heap, [], rfl, hc, rfl, .refl cur heap, rfl⟩
  | t :: ts, hlegal, c, cur, heap, node, hc, hnode => by
    obtain ⟨ht, hts⟩ := hlegal
    obtain ⟨c₁, heap₁, hrun₁, hc₁, hbrace₁, hgrown₁, hholds⟩ := runWords_words t ht hc hnode
    obtain ⟨c₂, heap₂, ids, hrun₂, hc₂, hbrace₂, hgrown₂, hall⟩ :=
      runWords_wordsAll ts hts hc₁ (hgrown₁.cur node hnode)
    refine ⟨c₂, heap₂, heap.length :: ids, ?_, hc₂, hbrace₂.trans hbrace₁,
      hgrown₁.trans hgrown₂, heap.length, ids, rfl, ?_, by simpa using hall⟩
    · rw [Conf.wordsAll, runWords_of_append hrun₁, hrun₂]
    · refine Holds.frame (fun i hi hlt => ?_) le_rfl t hholds
      exact hgrown₂.old i hlt hi.ne'

end

lemma Spells.length_le {words : List Word} {text : CStr} (h : Spells words text) :
    words.length ≤ text.length := by
  induction h with
  | nil _ => exact Nat.zero_le _
  | @cons w word words rest _ _ ih =>
    have hword : 1 ≤ word.spell.length := by
      cases word <;> simp [Word.spell, quote]
    simp only [List.length_cons, List.length_append]
    omega

mutual

lemma words_fit : ∀ t : Conf, t.Legal → ∀ w ∈ t.words, w.Fits
  | .leaf name value, h => by
    simpa [Conf.words, Word.Fits] using ⟨h.1, h.2.2⟩
  | .group name value children, h => by
    obtain ⟨hname, -, hvalue, hchildren⟩ := h
    intro w hw
    simp only [Conf.words, List.cons_append, List.mem_cons, List.mem_append, List.mem_map,
      Option.mem_toList, List.not_mem_nil, or_false] at hw
    rcases hw with rfl | (⟨v, hv, rfl⟩ | rfl | hw) | rfl
    · exact hname
    · exact hvalue v hv
    · trivial
    · exact wordsAll_fit children hchildren w hw
    · trivial

lemma wordsAll_fit : ∀ ts : List Conf, Conf.LegalAll ts → ∀ w ∈ Conf.wordsAll ts, w.Fits
  | [], _ => by simp [Conf.wordsAll]
  | t :: ts, h => by
    intro w hw
    rcases List.mem_append.1 hw with hw | hw
    · exact words_fit t h.1 w hw
    · exact wordsAll_fit ts h.2 w hw

end

/-- The heap has the root of a tree of configurations. -/
def Rooted (D : Doubles F) (heap : Heap F) (root : ℕ) (ts : List Conf) : Prop :=
  ∃ v ids, smartValue D "tree root".toList = some v ∧
    heap[root]? = some ⟨0, "root".toList, v, ids, none⟩ ∧ HoldsAll D heap root 0 ids ts

/-- The text of a configuration is parsed to its tree. -/
theorem parseBuf_spells {ts : List Conf} {text : CStr} (hlegal : Conf.LegalAll ts)
    (htext : Spells (Conf.wordsAll ts) text)
    (parseFile : CStr → Globals F → Except Stop (Parsed F)) (dir : CStr) (g : Globals F) :
    ∃ heap line, parseBuf D parseFile dir text g =
        .ok ⟨true, some g.heap.length, { g with heap := heap, line := line }⟩ ∧
      Rooted D heap g.heap.length ts := by
  obtain ⟨v, hv⟩ : ∃ v, smartValue D "tree root".toList = some v := ⟨_, rfl⟩
  set heap₀ : Heap F := g.heap ++ [⟨0, "root".toList, v, [], none⟩] with hheap₀
  have hroot : heap₀[g.heap.length]? = some ⟨0, "root".toList, v, [], none⟩ := by simp [hheap₀]
  obtain ⟨c, heap, ids, hrun, hc, hbrace, hgrown, hall⟩ :=
    runWords_wordsAll ts hlegal (c := Control.start) ⟨rfl, rfl⟩ hroot
  have hlength := htext.length_le
  obtain ⟨line, hloop⟩ := parseLoop_spells htext (text.length + 1) (by omega)
    { g with heap := heap₀, line := 0 } (wordsAll_fit ts hlegal) hrun ⟨hbrace, hc.name⟩
  refine ⟨heap, line, ?_, v, ids, hv, by simpa using hgrown.cur _ hroot, by simpa using hall⟩
  rw [parseBuf, hv]
  exact hloop

/-! ## Looking up -/

/-- A path of names. -/
def joinPath : List CStr → CStr
  | [] => []
  | [n] => n
  | n :: m :: ns => n ++ '/' :: joinPath (m :: ns)

lemma Holds.node {heap : Heap F} {id parent index : ℕ} {t : Conf}
    (h : Holds D heap id parent index t) :
    ∃ node, heap[id]? = some node ∧ node.name = t.name ∧ t.value D = some node.value ∧
      HoldsAll D heap id 0 node.nodes t.children := by
  cases t with
  | leaf name value =>
    obtain ⟨-, v, hv, hid⟩ := h
    exact ⟨_, hid, rfl, hv, rfl⟩
  | group name value children =>
    obtain ⟨-, v, nodes, hv, hid, hall⟩ := h
    exact ⟨_, hid, rfl, hv, hall⟩

/-- The first item with a name is the root of the first tree with the name. -/
lemma find_name {heap : Heap F} {parent index : ℕ} {ids : List ℕ} {ts : List Conf}
    (h : HoldsAll D heap parent index ids ts) (n : CStr) :
    (ts.find? (·.name = n) = none ∧
      ids.find? (fun i => (heap[i]?).map Node.name = some n) = none) ∨
    ∃ t id i, ts.find? (·.name = n) = some t ∧
      ids.find? (fun i => (heap[i]?).map Node.name = some n) = some id ∧
      Holds D heap id parent i t := by
  induction ts generalizing index ids with
  | nil =>
    obtain rfl : ids = [] := h
    exact .inl ⟨rfl, rfl⟩
  | cons t ts ih =>
    obtain ⟨id, ids, rfl, ht, hts⟩ := h
    obtain ⟨node, hnode, hname, -, -⟩ := ht.node
    by_cases heq : t.name = n
    · refine .inr ⟨t, id, index, ?_, ?_, ht⟩
      · simp [heq]
      · simp [hnode, hname, heq]
    · simpa [hnode, hname, heq] using ih hts

/-- The key splits at its first slash. -/
lemma split_slash {n : CStr} (hn : '/' ∉ n) (rest : CStr) :
    (n ++ '/' :: rest).takeWhile (· ≠ '/') = n ∧
      (n ++ '/' :: rest).dropWhile (· ≠ '/') = '/' :: rest := by
  constructor
  · rw [List.takeWhile_append_of_pos (by simpa using fun c hc => ne_of_mem_of_not_mem hc hn)]
    simp
  · rw [List.dropWhile_append_of_pos (by simpa using fun c hc => ne_of_mem_of_not_mem hc hn)]
    simp

lemma findItem_cons {heap : Heap F} {fuel : ℕ} {items : List ℕ} {n rest : CStr} (hn : '/' ∉ n) :
    findItem heap (fuel + 1) items (n ++ '/' :: rest) =
      (items.find? fun i => (heap[i]?).map Node.name = some n).bind fun item =>
        if rest = [] then some item
        else (heap[item]?).bind fun node => findItem heap fuel node.nodes rest := by
  obtain ⟨htake, hdrop⟩ := split_slash hn rest
  rw [findItem, htake, hdrop]
  rfl

lemma findItem_last {heap : Heap F} {fuel : ℕ} {items : List ℕ} {n : CStr} (hn : '/' ∉ n) :
    findItem heap (fuel + 1) items n =
      items.find? fun i => (heap[i]?).map Node.name = some n := by
  have htake : n.takeWhile (· ≠ '/') = n :=
    List.takeWhile_eq_self_iff.2 (by simpa using fun c hc => ne_of_mem_of_not_mem hc hn)
  have hdrop : n.dropWhile (· ≠ '/') = [] :=
    List.dropWhile_eq_nil_iff.2 (by simpa using fun c hc => ne_of_mem_of_not_mem hc hn)
  rw [findItem, htake, hdrop]
  simp

/-- `hive_find_item` goes down the tree as the path does. -/
lemma findItem_path {heap : Heap F} {path : List CStr} (hpath : ∀ n ∈ path, Plain n)
    {ts : List Conf} {fuel parent index : ℕ} {ids : List ℕ} (hfuel : path.length ≤ fuel)
    (hne : path ≠ [])
    (h : HoldsAll D heap parent index ids ts) :
    ((findItem heap fuel ids (joinPath path)).bind (heap[·]?)).map Node.value =
      (Conf.find ts path).bind (Conf.value D) := by
  induction path generalizing ts fuel parent index ids with
  | nil => exact absurd rfl hne
  | cons n path ih =>
    obtain ⟨fuel, rfl⟩ := Nat.exists_eq_add_of_lt hfuel
    have hn := hpath n List.mem_cons_self
    cases path with
    | nil =>
      rw [joinPath, findItem_last hn.slash, Conf.find]
      rcases find_name h n with ⟨hts, hids⟩ | ⟨t, id, i, hts, hids, ht⟩
      · rw [hts, hids]
        rfl
      · obtain ⟨node, hnode, -, hvalue, -⟩ := ht.node
        rw [hts, hids, Option.bind_some, Option.bind_some, hnode, hvalue]
        rfl
    | cons m path =>
      have hrest : joinPath (m :: path) ≠ [] := by
        have hm := (hpath m (by simp)).nonempty
        cases path <;> simp [joinPath, hm]
      rw [joinPath, findItem_cons hn.slash, Conf.find]
      rcases find_name h n with ⟨hts, hids⟩ | ⟨t, id, i, hts, hids, ht⟩
      · rw [hts, hids]
        rfl
      · obtain ⟨node, hnode, -, -, hall⟩ := ht.node
        rw [hts, hids, Option.bind_some, Option.bind_some, if_neg hrest, hnode, Option.bind_some]
        refine ih (fun k hk => hpath k (List.mem_cons_of_mem n hk)) ?_ (by simp) hall
        simp only [List.length_cons] at hfuel ⊢
        omega
      · simp

lemma length_le_joinPath {path : List CStr} (hpath : ∀ n ∈ path, Plain n) :
    path.length ≤ (joinPath path).length := by
  induction path with
  | nil => exact le_rfl
  | cons n path ih =>
    have hn := List.length_pos_iff.2 (hpath n List.mem_cons_self).nonempty
    have hle := ih fun k hk => hpath k (List.mem_cons_of_mem n hk)
    cases path with
    | nil => exact hn
    | cons m path =>
      simp only [joinPath, List.length_append, List.length_cons] at hle ⊢
      omega

lemma notMem_joinPath {path : List CStr} {d : Char} (hd : d ≠ '/') (hpath : ∀ n ∈ path, d ∉ n) :
    d ∉ joinPath path := by
  induction path with
  | nil => simp [joinPath]
  | cons n path ih =>
    have hn := hpath n List.mem_cons_self
    have hrest := ih fun k hk => hpath k (List.mem_cons_of_mem n hk)
    cases path with
    | nil => exact hn
    | cons m path => simp [joinPath, hn, hd, hrest]

lemma getArrayIndex_of_notMem {key : CStr} (h : ']' ∉ key) : getArrayIndex key = (none, key) := by
  have hlast : key.getD (key.length - 1) nul ≠ ']' := by
    rw [List.getD_eq_getElem?_getD]
    cases hget : key[key.length - 1]? with
    | none => decide
    | some c =>
      rintro rfl
      exact h (List.mem_of_getElem? hget)
  simp only [getArrayIndex, if_pos (Or.inl hlast)]

lemma stripslashes_of_notMem {key : CStr} (h : '\\' ∉ key) : stripslashes key = key := by
  induction key with
  | nil => rfl
  | cons c key ih =>
    obtain ⟨hc, hkey⟩ : c ≠ '\\' ∧ '\\' ∉ key := by simpa [eq_comm] using h
    rw [stripslashes, ih hkey]
    · exact fun heq => absurd heq hc
    · exact fun _ _ heq => absurd heq hc

lemma length_rootKey (key : CStr) : ("root/".toList ++ key).length = key.length + 5 := by
  rw [List.length_append, Nat.add_comm]
  rfl

/-- A path has no index and no backslash. -/
lemma rootKey_path {path : List CStr} (hpath : ∀ n ∈ path, Plain n) :
    getArrayIndex ("root/".toList ++ joinPath path) = (none, "root/".toList ++ joinPath path) ∧
      stripslashes ("root/".toList ++ joinPath path) = "root/".toList ++ joinPath path := by
  have hbracket : ']' ∉ "root/".toList ++ joinPath path := by
    have hrest := notMem_joinPath (d := ']') (by decide) fun n hn => (hpath n hn).bracket
    simpa using hrest
  have hbackslash : '\\' ∉ "root/".toList ++ joinPath path := by
    have hrest := notMem_joinPath (d := '\\') (by decide) fun n hn => (hpath n hn).backslash
    simpa using hrest
  exact ⟨getArrayIndex_of_notMem hbracket, stripslashes_of_notMem hbackslash⟩

lemma openKey_long {heap : Heap F} {items : List ℕ} {key : CStr} (hlong : 65530 < key.length) :
    openKey heap items key = .error .fault := by
  have hsize : keySize ≤ ("root/".toList ++ key).length := by
    rw [length_rootKey]
    unfold keySize
    omega
  unfold openKey
  exact if_pos hsize

/-- A path that fits into the buffer is looked up in the tree. -/
lemma openKey_path {heap : Heap F} {root : ℕ} {ts : List Conf} (hroot : Rooted D heap root ts)
    {path : List CStr} (hpath : ∀ n ∈ path, Plain n) (hne : path ≠ [])
    (hfit : (joinPath path).length ≤ 65530) :
    openKey heap [root] (joinPath path) = .ok ((Conf.find ts path).bind (Conf.value D)) := by
  obtain ⟨v, ids, -, hnode, hall⟩ := hroot
  have hkey : "root/".toList ++ joinPath path = "root".toList ++ '/' :: joinPath path := rfl
  have hlength := length_rootKey (joinPath path)
  obtain ⟨hindex, hstrip⟩ := rootKey_path hpath
  have hle := length_le_joinPath hpath
  have hempty : joinPath path ≠ [] := by
    have hpos := List.length_pos_iff.2 hne
    exact List.length_pos_iff.1 (by omega)
  have hfuel : path.length ≤ (joinPath path).length + 5 := by omega
  have hfind := findItem_path hpath hfuel hne hall
  have hitem : findItem heap ((joinPath path).length + 5 + 1) [root]
      ("root/".toList ++ joinPath path) =
      findItem heap ((joinPath path).length + 5) ids (joinPath path) := by
    have hslash : '/' ∉ "root".toList := by decide
    rw [hkey, findItem_cons hslash]
    simp [hnode, hempty]
  have hsize : ¬keySize ≤ (joinPath path).length + 5 := by
    unfold keySize
    omega
  unfold openKey
  dsimp only
  rw [hlength, if_neg hsize, hindex]
  dsimp only
  rw [hstrip, hlength, hitem, ← hfind]
  cases (findItem heap ((joinPath path).length + 5) ids (joinPath path)).bind (heap[·]?) with
  | none => rfl
  | some node => rfl

/-! ## The stack -/

/-- How many calls of `hive_find_item` are in one another; each of them has two buffers of 65535
bytes. -/
def findCalls (heap : Heap F) : ℕ → List ℕ → CStr → ℕ
  | 0, _, _ => 0
  | fuel + 1, items, key =>
    match items.find? fun i => (heap[i]?).map Node.name = some (key.takeWhile (· ≠ '/')) with
    | none => 1
    | some item =>
      let suffix := (key.dropWhile (· ≠ '/')).tail
      if suffix = [] then 1
      else ((heap[item]?).map fun node => findCalls heap fuel node.nodes suffix).getD 0 + 1

/-- The calls of `hive_find_item` for a key of `hive_open_key`. -/
def keyCalls (heap : Heap F) (items : List ℕ) (key : CStr) : ℕ :=
  let dummy := stripslashes (getArrayIndex ("root/".toList ++ key)).2
  findCalls heap (dummy.length + 1) items dummy

/-- `hive_open_key` on a stack. -/
def openKeyOn (stack : CallStack) (heap : Heap F) (items : List ℕ) (key : CStr) :
    Except Stop (Option (FlexVal F)) :=
  if keyCalls heap items key ≤ stack.calls then openKey heap items key else .error .fault

lemma findCalls_cons {heap : Heap F} {fuel : ℕ} {items : List ℕ} {n rest : CStr} (hn : '/' ∉ n) :
    findCalls heap (fuel + 1) items (n ++ '/' :: rest) =
      match items.find? fun i => (heap[i]?).map Node.name = some n with
      | none => 1
      | some item =>
        if rest = [] then 1
        else ((heap[item]?).map fun node => findCalls heap fuel node.nodes rest).getD 0 + 1 := by
  obtain ⟨htake, hdrop⟩ := split_slash hn rest
  rw [findCalls, htake, hdrop]
  rfl

lemma findCalls_last {heap : Heap F} {fuel : ℕ} {items : List ℕ} {n : CStr} (hn : '/' ∉ n) :
    findCalls heap (fuel + 1) items n = 1 := by
  have hdrop : n.dropWhile (· ≠ '/') = [] :=
    List.dropWhile_eq_nil_iff.2 (by simpa using fun c hc => ne_of_mem_of_not_mem hc hn)
  rw [findCalls, hdrop]
  split <;> simp

/-- There is a call for every name that is looked up. -/
lemma findCalls_path {heap : Heap F} {path : List CStr} (hpath : ∀ n ∈ path, Plain n)
    {ts : List Conf} {fuel parent index : ℕ} {ids : List ℕ} (hfuel : path.length ≤ fuel)
    (hne : path ≠ []) (h : HoldsAll D heap parent index ids ts) :
    findCalls heap fuel ids (joinPath path) = Conf.lookups ts path := by
  induction path generalizing ts fuel parent index ids with
  | nil => exact absurd rfl hne
  | cons n path ih =>
    obtain ⟨fuel, rfl⟩ := Nat.exists_eq_add_of_lt hfuel
    have hn := hpath n List.mem_cons_self
    cases path with
    | nil =>
      rw [joinPath, findCalls_last hn.slash, Conf.lookups]
      split <;> rfl
    | cons m path =>
      have hrest : joinPath (m :: path) ≠ [] := by
        have hm := (hpath m (by simp)).nonempty
        cases path <;> simp [joinPath, hm]
      rw [joinPath, findCalls_cons hn.slash, Conf.lookups]
      rcases find_name h n with ⟨hts, hids⟩ | ⟨t, id, i, hts, hids, ht⟩
      · rw [hts, hids]
      · obtain ⟨node, hnode, -, -, hall⟩ := ht.node
        simp only [hts, hids, if_neg hrest, hnode, Option.map_some, Option.getD_some]
        rw [ih (fun k hk => hpath k (List.mem_cons_of_mem n hk)) ?_ (by simp) hall]
        simp only [List.length_cons] at hfuel ⊢
        omega

/-- The root takes one call more. -/
lemma keyCalls_path {heap : Heap F} {root : ℕ} {ts : List Conf} (hroot : Rooted D heap root ts)
    {path : List CStr} (hpath : ∀ n ∈ path, Plain n) (hne : path ≠ []) :
    keyCalls heap [root] (joinPath path) = Conf.lookups ts path + 1 := by
  obtain ⟨v, ids, -, hnode, hall⟩ := hroot
  have hkey : "root/".toList ++ joinPath path = "root".toList ++ '/' :: joinPath path := rfl
  have hlength := length_rootKey (joinPath path)
  obtain ⟨hindex, hstrip⟩ := rootKey_path hpath
  have hle := length_le_joinPath hpath
  have hpos := List.length_pos_iff.2 hne
  have hempty : joinPath path ≠ [] := List.length_pos_iff.1 (by omega)
  have hslash : '/' ∉ "root".toList := by decide
  have hfuel : path.length ≤ (joinPath path).length + 5 := by omega
  have hfind := findCalls_path hpath hfuel hne hall
  rw [keyCalls, hindex]
  dsimp only
  rw [hstrip, hlength, hkey, findCalls_cons hslash]
  simp [hnode, hempty, hfind]

/-- A configuration is parsed to its tree, and a path is looked up in it on a stack. -/
def ParsedAndFound (D : Doubles F) (stack : CallStack) (ts : List Conf) (text : CStr)
    (path : List CStr) (parseFile : CStr → Globals F → Except Stop (Parsed F)) (dir : CStr)
    (g : Globals F) : Prop :=
  ∃ p root, parseBuf D parseFile dir text g = .ok p ∧ p.success ∧ p.root = some root ∧
    Rooted D p.globals.heap root ts ∧
    openKeyOn stack p.globals.heap [root] (joinPath path) =
      .ok ((Conf.find ts path).bind (Conf.value D))

/-- The text of a configuration is parsed to its tree, and a path is looked up in it if it fits
into the buffer and the stack has room for a call for each of its names. -/
theorem parsed_and_found_iff (D : Doubles F) (stack : CallStack) {ts : List Conf} {text : CStr}
    {path : List CStr} (hlegal : Conf.LegalAll ts) (htext : Spells (Conf.wordsAll ts) text)
    (hpath : ∀ n ∈ path, Plain n) (hne : path ≠ [])
    (parseFile : CStr → Globals F → Except Stop (Parsed F)) (dir : CStr) (g : Globals F) :
    ParsedAndFound D stack ts text path parseFile dir g ↔
      (joinPath path).length ≤ 65530 ∧ Conf.lookups ts path < stack.calls := by
  constructor
  · rintro ⟨p, root, -, -, -, hroot, hopen⟩
    rw [openKeyOn, keyCalls_path hroot hpath hne] at hopen
    split_ifs at hopen with hcalls
    refine ⟨?_, hcalls⟩
    by_contra hlong
    rw [openKey_long (Nat.lt_of_not_le hlong)] at hopen
    cases hopen
  · rintro ⟨hfit, hcalls⟩
    obtain ⟨heap, line, hparse, hroot⟩ := parseBuf_spells hlegal htext parseFile dir g
    refine ⟨_, g.heap.length, hparse, rfl, rfl, hroot, ?_⟩
    rw [openKeyOn, keyCalls_path hroot hpath hne, if_pos (Nat.succ_le_of_lt hcalls)]
    exact openKey_path hroot hpath hne hfit

end Parsing

/-- A text with a space before every word. -/
def spaced (words : List Word) : CStr := words.flatMap fun word => ' ' :: word.spell

lemma spells_spaced (words : List Word) : Spells words (spaced words) := by
  induction words with
  | nil => exact .nil fun c hc => absurd hc List.not_mem_nil
  | cons word words ih =>
    have hspace : ∀ c ∈ [' '], isSpace c := by
      intro c hc
      rw [List.mem_singleton.1 hc]
      rfl
    exact .cons hspace ih

/-- Sections with long names, one in another. -/
def deep (n : CStr) : ℕ → Conf
  | 0 => .leaf n ['v']
  | k + 1 => .group n none [deep n k]

lemma plain_replicate (k : ℕ) : Plain (List.replicate (k + 1) 'a') := by
  constructor <;> simp [List.mem_replicate]

lemma fits_replicate {k : ℕ} (hk : k < 1023) : Fits (List.replicate (k + 1) 'a') := by
  constructor
  · rw [List.length_replicate]
    omega
  · simp [List.mem_replicate, nul]
  · simp [List.replicate_succ]
  · simp [List.replicate_succ]

lemma deep_legal {n : CStr} (hfits : Fits n) (hplain : Plain n) (k : ℕ) : (deep n k).Legal := by
  induction k with
  | zero => exact ⟨hfits, hplain, by decide, by decide, by decide, by decide⟩
  | succ k ih => exact ⟨hfits, hplain, by simp, ih, trivial⟩

lemma length_joinPath_replicate (n : CStr) (k : ℕ) :
    (joinPath (List.replicate (k + 1) n)).length = (k + 1) * n.length + k := by
  induction k with
  | zero => simp [joinPath]
  | succ k ih =>
    rw [List.replicate_succ, List.replicate_succ, joinPath, ← List.replicate_succ,
      List.length_append, List.length_cons, ih, Nat.succ_mul (k + 1)]
    omega

/-- Eight MiB, and the buffers of `hive_find_item`. -/
def findStack : CallStack := ⟨2 ^ 23, 131070⟩

theorem parsed_and_found_section :
    ParsedAndFound noDoubles findStack
      [.leaf ['a'] ['"', 'b'], .group ['s'] none [.leaf ['c'] ['d'], .leaf ['c'] ['e']]]
      (spaced (Conf.wordsAll
        [.leaf ['a'] ['"', 'b'], .group ['s'] none [.leaf ['c'] ['d'], .leaf ['c'] ['e']]]))
      [['s'], ['c']] (fun _ _ => .error .fuel) [] ⟨[], 0, []⟩ := by
  refine (parsed_and_found_iff noDoubles findStack ?_ (spells_spaced _) ?_ (by decide) _ _ _).2
    ⟨by decide, by decide⟩
  · simp only [Conf.LegalAll, Conf.Legal, Option.mem_def]
    decide
  · decide

theorem parsed_and_found_long :
    Conf.LegalAll [deep (List.replicate 1023 'a') 63] ∧
    (∀ n ∈ List.replicate 64 (List.replicate 1023 'a'), Plain n) ∧
    ¬ParsedAndFound noDoubles findStack [deep (List.replicate 1023 'a') 63]
      (spaced (Conf.wordsAll [deep (List.replicate 1023 'a') 63]))
      (List.replicate 64 (List.replicate 1023 'a')) (fun _ _ => .error .fuel) [] ⟨[], 0, []⟩ := by
  have hplain : Plain (List.replicate 1023 'a') := plain_replicate 1022
  refine ⟨⟨deep_legal (fits_replicate (by decide)) hplain 63, trivial⟩, fun n hn => ?_, ?_⟩
  · exact List.eq_of_mem_replicate hn ▸ hplain
  · rintro ⟨p, root, -, -, -, -, hopen⟩
    have hlength : (joinPath (List.replicate 64 (List.replicate 1023 'a'))).length = 65535 := by
      rw [length_joinPath_replicate _ 63, List.length_replicate]
    rw [openKeyOn] at hopen
    split_ifs at hopen
    rw [openKey_long (by omega)] at hopen
    cases hopen

end WebTester.Hive
