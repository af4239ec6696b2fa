import WebTester.HiveInclude

/-!
# The steps of the parser through a text

Which variables a text sets, and how many braces are open there, does not depend on the tree. The
parser goes through a text by tokens and by files that are included, and it always stands at a node
from which the open braces lead up to the root. A file adds new nodes only, and it has children to
give exactly when it or a file below it sets a variable.
-/
namespace WebTester.Hive
open CString Flexval Relation

/-! ## Nodes by their numbers -/

section Nodes

variable {F : Type} (heap : Heap F)

def nodesOf (n : ℕ) : List ℕ := (heap[n]?.map Node.nodes).getD []

def parentOf (n : ℕ) : Option ℕ := heap[n]?.bind Node.parent

def indexOf (n : ℕ) : Option ℕ := heap[n]?.map Node.index

/-- A node of the tree. -/
def Under : ℕ → ℕ → Prop := ReflTransGen fun i k => k ∈ nodesOf heap i

end Nodes

/-! ## The variables of a text -/

section Settings

/-- The variables that a text sets up to an error, each by the number of braces that are open. -/
def settings : ℕ → Control → Option CStr → List ℕ
  | 0, _, _ => []
  | fuel + 1, c, data =>
    match scan data with
    | .token t _ data =>
      if t.array && c.state ≠ .value then []
      else if t.text.head? = some '#' && !t.string then
        if t.text = "#include".toList then
          match scan data with
          | .token _ _ data => settings fuel c data
          | _ => []
        else []
      else
        match c.step 0 t with
        | .error _ => []
        | .ok (c', action) =>
          (if action.adds.isSome then [c.braceCount] else []) ++ settings fuel c' data
    | _ => []

/-- The settings of a text. -/
def bufSettings (data : CStr) : List ℕ := settings (data.length + 1) Control.start (some data)

variable {F : Type} (D : Doubles F) (files : List (CStr × CStr))

/-- The settings of a file. -/
def fileSettings (fn : CStr) : List ℕ :=
  match files.lookup fn with
  | none => []
  | some data => if 4096 ≤ (dirname fn).length then [] else bufSettings data

/-- Neither a file nor any file below it sets a variable. -/
def Quiet (fn : CStr) : Prop := ∀ f, Reaches D files fn f → fileSettings files f = []

lemma quiet_iff (fn : CStr) : Quiet D files fn ↔
    fileSettings files fn = [] ∧ ∀ f ∈ (survey D files fn).1, Quiet D files f := by
  constructor
  · intro h
    exact ⟨h fn .refl, fun f hf f' hf' => h f' (.head hf hf')⟩
  · rintro ⟨hfn, hfiles⟩ f hf
    rcases ReflTransGen.cases_head hf with rfl | ⟨f', hinclude, hf'⟩
    · exact hfn
    · exact hfiles f' hinclude f hf'

end Settings

section Rounds

variable {F : Type} {D : Doubles F} {parseFile : CStr → Globals F → Except Stop (Parsed F)}
  {dir : CStr}

/-- What an iteration of the loop does to the tree, with the files that are still included and the
variables that are still set. -/
inductive Round (D : Doubles F) (parseFile : CStr → Globals F → Except Stop (Parsed F))
    (dir : CStr) (root fuel : ℕ) (c : Control) (cur : ℕ) (g : Globals F) :
    List CStr → List ℕ → Except Stop (Parsed F) → Prop
  | fault : Round D parseFile dir root fuel c cur g [] [] (.error .fault)
  | ends {p : Parsed F} : p.root = some root → p.globals.heap = g.heap →
      Round D parseFile dir root fuel c cur g [] [] (.ok p)
  | last (token : CStr) {g' : Globals F} : g'.heap = g.heap →
      Round D parseFile dir root fuel c cur g [includeName dir token] []
        (includeFile parseFile dir cur token g' >>= fun g => pure (finishBuf root c g))
  | more (token : CStr) (data : Option CStr) {g' : Globals F} : g'.heap = g.heap →
      Round D parseFile dir root fuel c cur g
        (includeName dir token :: (outline D dir fuel c data).1) (settings fuel c data)
        (includeFile parseFile dir cur token g' >>= fun g =>
          parseLoop D parseFile dir root fuel c cur data g)
  | token {line : ℕ} {t : Token} {c' : Control} {a : Action} (data : Option CStr) :
      c.step line t = .ok (c', a) →
      Round D parseFile dir root fuel c cur g
        (if ∀ v ∈ a.adds, (spawnValue D v.2).isSome then outline D dir fuel c' data
          else ([], .fault)).1
        ((if a.adds.isSome then [c.braceCount] else []) ++ settings fuel c' data)
        (match a.apply D g.heap cur with
          | none => .error .fault
          | some (heap, cur) =>
            parseLoop D parseFile dir root fuel c' cur data { g with heap := heap, line := line })

variable (D parseFile dir) in
lemma round (root fuel : ℕ) (c : Control) (cur : ℕ) (data : Option CStr) (g : Globals F) :
    Round D parseFile dir root fuel c cur g (outline D dir (fuel + 1) c data).1
      (settings (fuel + 1) c data) (parseLoop D parseFile dir root (fuel + 1) c cur data g) := by
  rw [outline, settings, parseLoop]
  have hfail : ∀ line error, Round D parseFile dir root fuel c cur g [] []
      (.ok ⟨false, some root, { g with line := line, error := error }⟩) :=
    fun _ _ => .ends rfl rfl
  cases scan data with
  | fault => exact .fault
  | finished lines =>
    obtain ⟨hroot, hheap⟩ := finishBuf_globals root c { g with line := g.line + lines }
    exact .ends hroot hheap
  | unended text lines => exact hfail _ _
  | token t lines rest =>
    dsimp only
    split_ifs with harray hdirective hinclude
    · exact hfail _ _
    · cases scan rest with
      | fault => exact .fault
      | finished lines' => exact .last [] rfl
      | unended text lines' =>
        dsimp only
        cases leftover text with
        | none => exact .fault
        | some token => exact .last token rfl
      | token t' lines' rest' => exact .more t'.text rest' rfl
    · exact hfail _ _
    · cases hstep : c.step (g.line + lines) t with
      | error e =>
        obtain ⟨e', he'⟩ := Control.step_error hstep 0
        rw [he']
        exact hfail _ _
      | ok r =>
        obtain ⟨c', a⟩ := r
        rw [Control.step_line hstep 0]
        exact .token rest hstep

end Rounds

/-! ## What the operations change -/

section Views

variable {F : Type} {D : Doubles F} {heap heap' : Heap F} {root cur b i k n : ℕ} {ids : List ℕ}

lemma nodesOf_eq {node : Node F} (h : heap[n]? = some node) : nodesOf heap n = node.nodes := by
  simp [nodesOf, h]

lemma nodesOf_of_le (h : heap.length ≤ n) : nodesOf heap n = [] := by
  simp [nodesOf, List.getElem?_eq_none h]

lemma parentOf_lt {x : ℕ} (h : parentOf heap n = some x) : n < heap.length := by
  obtain ⟨node, hnode, -⟩ := Option.bind_eq_some_iff.1 h
  exact (List.getElem?_eq_some_iff.1 hnode).1

lemma tidy_iff : Tidy heap ↔ ∀ i, ∀ k ∈ nodesOf heap i, i < k ∧ k < heap.length := by
  constructor
  · intro h i k hk
    rcases Nat.lt_or_ge i heap.length with hi | hi
    · have hnode : heap[i]? = some heap[i] := List.getElem?_eq_getElem hi
      rw [nodesOf_eq hnode] at hk
      exact h i _ hnode k hk
    · rw [nodesOf_of_le hi] at hk
      cases hk
  · intro h i node hnode k hk
    exact h i k (by rwa [nodesOf_eq hnode])

lemma Frame.nodesOf_eq (h : Frame n heap heap') (hi : i < n) :
    nodesOf heap' i = nodesOf heap i := by
  rw [nodesOf, h.old i hi, nodesOf]

lemma Frame.parentOf_eq (h : Frame n heap heap') (hi : i < n) :
    parentOf heap' i = parentOf heap i := by
  rw [parentOf, h.old i hi, parentOf]

lemma Grown.nodesOf_cur (h : Grown cur ids heap heap') (hcur : cur < heap.length) :
    nodesOf heap' cur = nodesOf heap cur ++ ids := by
  have hnode : heap[cur]? = some heap[cur] := List.getElem?_eq_getElem hcur
  rw [Hive.nodesOf_eq (h.cur _ hnode), Hive.nodesOf_eq hnode]

lemma Grown.nodesOf_ne (h : Grown cur ids heap heap') (hi : i < heap.length) (hne : i ≠ cur) :
    nodesOf heap' i = nodesOf heap i := by
  rw [nodesOf, h.old i hi hne, nodesOf]

lemma Grown.parentOf_eq (h : Grown cur ids heap heap') (hi : i < heap.length) :
    parentOf heap' i = parentOf heap i := by
  by_cases hne : i = cur
  · subst hne
    have hnode : heap[i]? = some heap[i] := List.getElem?_eq_getElem hi
    rw [parentOf, parentOf, h.cur _ hnode, hnode]
    rfl
  · rw [parentOf, h.old i hi hne, parentOf]

lemma Grown.indexOf_eq (h : Grown cur ids heap heap') (hi : i < heap.length) :
    indexOf heap' i = indexOf heap i := by
  by_cases hne : i = cur
  · subst hne
    have hnode : heap[i]? = some heap[i] := List.getElem?_eq_getElem hi
    rw [indexOf, indexOf, h.cur _ hnode, hnode]
    rfl
  · rw [indexOf, h.old i hi hne, indexOf]

/-- Children are only added, at the end. -/
lemma Grown.prefix_nodesOf (h : Grown cur ids heap heap') (i : ℕ) :
    nodesOf heap i <+: nodesOf heap' i := by
  rcases Nat.lt_or_ge i heap.length with hi | hi
  · by_cases hne : i = cur
    · subst hne
      rw [h.nodesOf_cur hi]
      exact List.prefix_append _ _
    · rw [h.nodesOf_ne hi hne]
  · rw [nodesOf_of_le hi]
    exact List.nil_prefix

lemma Under.mono (h : Under heap root n) (hle : ∀ i, nodesOf heap i <+: nodesOf heap' i) :
    Under heap' root n :=
  ReflTransGen.mono (fun i _ hk => (hle i).subset hk) _ _ h

/-- `hive_add_variable` makes one new node. -/
lemma addVariable_spec {name : CStr} {t : Token} (h : addVariable D heap cur name t = some heap') :
    cur < heap.length ∧ Grown cur [heap.length] heap heap' ∧ heap'.length = heap.length + 1 ∧
      nodesOf heap' heap.length = [] ∧ parentOf heap' heap.length = some cur ∧
      indexOf heap' heap.length = some (nodesOf heap cur).length := by
  have hspec := h
  rw [addVariable, Option.bind_eq_bind, Option.bind_eq_some_iff] at hspec
  obtain ⟨node, hnode, hspec⟩ := hspec
  rw [Option.bind_eq_bind, Option.bind_eq_some_iff] at hspec
  obtain ⟨v, hv, -⟩ := hspec
  obtain ⟨heap₁, hadd, hgrown, hnew, hlen⟩ := addVariable_grown hnode hv name
  obtain rfl : heap₁ = heap' := Option.some.inj (hadd.symm.trans h)
  refine ⟨(List.getElem?_eq_some_iff.1 hnode).1, hgrown, hlen, ?_, ?_, ?_⟩
  · rw [nodesOf_eq hnew]
  · simp [parentOf, hnew]
  · simp [indexOf, hnew, nodesOf_eq hnode]

/-- `current_node` becomes its last child, whose parent is set. -/
lemma move_descend_spec {child : ℕ} (h : move heap cur .descend = some (heap', child)) :
    (nodesOf heap cur).getLast? = some child ∧ child < heap.length ∧
      heap'.length = heap.length ∧ (∀ i, nodesOf heap' i = nodesOf heap i) ∧
      (∀ i, i ≠ child → parentOf heap' i = parentOf heap i) ∧
      parentOf heap' child = some cur ∧ (∀ i, indexOf heap' i = indexOf heap i) ∧
      (∀ i, i ≠ child → heap'[i]? = heap[i]?) := by
  simp only [move, Option.bind_eq_bind, Option.bind_eq_some_iff] at h
  obtain ⟨node, hnode, k, hk, new, hnew, h⟩ := h
  obtain ⟨rfl, rfl⟩ := Prod.mk.inj (Option.some.inj h)
  have hlt : k < heap.length := (List.getElem?_eq_some_iff.1 hnew).1
  have hself : (heap.set k { new with parent := some cur })[k]? =
      some { new with parent := some cur } := List.getElem?_set_self hlt
  have hother : ∀ i, i ≠ k → (heap.set k { new with parent := some cur })[i]? = heap[i]? :=
    fun i hi => List.getElem?_set_ne hi.symm
  refine ⟨by rwa [nodesOf_eq hnode], hlt, List.length_set, ?_, ?_, ?_, ?_, hother⟩
  · intro i
    by_cases hi : i = k
    · subst hi
      rw [nodesOf_eq hself, nodesOf_eq hnew]
    · rw [nodesOf, hother i hi, nodesOf]
  · intro i hi
    rw [parentOf, hother i hi, parentOf]
  · simp [parentOf, hself]
  · intro i
    by_cases hi : i = k
    · subst hi
      simp [indexOf, hself, hnew]
    · rw [indexOf, hother i hi, indexOf]

lemma move_ascend_spec {p : ℕ} (h : move heap cur .ascend = some (heap', p)) :
    heap' = heap ∧ parentOf heap cur = some p := by
  simp only [move, Option.bind_eq_bind, Option.bind_eq_some_iff] at h
  obtain ⟨node, hnode, q, hq, h⟩ := h
  obtain ⟨rfl, rfl⟩ := Prod.mk.inj (Option.some.inj h)
  exact ⟨rfl, Option.bind_eq_some_iff.2 ⟨node, hnode, hq⟩⟩

end Views

/-! ## Where the parser stands -/

section Places

variable {F : Type} {D : Doubles F} {heap heap' : Heap F} {root cur b n : ℕ} {v w : Bool}
  {ids : List ℕ}

/-- The way from the current node up to the root, one node for every open brace. -/
def Trail (root : ℕ) (heap : Heap F) : ℕ → ℕ → Prop
  | 0, cur => cur = root
  | b + 1, cur => ∃ p, parentOf heap cur = some p ∧ p < cur ∧ cur ∈ nodesOf heap p ∧
      Trail root heap b p

/-- The parents of the nodes of a tree are in it. -/
def Own (root : ℕ) (heap : Heap F) : Prop :=
  ∀ i, root ≤ i → ∀ x, parentOf heap i = some x → root ≤ x

/-- The current node between two tokens. After a value it has a child that knows it. -/
structure Place (root : ℕ) (heap : Heap F) (cur : ℕ) (v : Bool) (b : ℕ) : Prop where
  tidy : Tidy heap
  lt : cur < heap.length
  trail : Trail root heap b cur
  taken : v → ∃ l ∈ nodesOf heap cur, parentOf heap l = some cur
  own : Own root heap

namespace Trail

lemma mono (h : Trail root heap b cur) (hparent : ∀ i ≤ cur, parentOf heap' i = parentOf heap i)
    (hnodes : ∀ i, nodesOf heap i <+: nodesOf heap' i) : Trail root heap' b cur := by
  induction b generalizing cur with
  | zero => exact h
  | succ b ih =>
    obtain ⟨p, hp, hlt, hmem, htrail⟩ := h
    refine ⟨p, (hparent cur le_rfl).trans hp, hlt, (hnodes p).subset hmem, ih htrail ?_⟩
    exact fun i hi => hparent i (hi.trans hlt.le)

lemma under (h : Trail root heap b cur) : Under heap root cur := by
  induction b generalizing cur with
  | zero =>
    obtain rfl : cur = root := h
    exact .refl
  | succ b ih =>
    obtain ⟨p, -, -, hmem, htrail⟩ := h
    exact (ih htrail).tail hmem

lemma le (h : Trail root heap b cur) : root ≤ cur := by
  induction b generalizing cur with
  | zero => exact (show cur = root from h).ge
  | succ b ih =>
    obtain ⟨p, -, hlt, -, htrail⟩ := h
    exact (ih htrail).trans hlt.le

/-- Nothing but the root is open as long as it has no child. -/
lemma eq_root (h : Trail root heap b cur) (hroot : nodesOf heap root = []) :
    cur = root ∧ b = 0 := by
  induction b generalizing cur with
  | zero => exact ⟨h, rfl⟩
  | succ b ih =>
    obtain ⟨p, -, -, hmem, htrail⟩ := h
    rw [(ih htrail).1, hroot] at hmem
    cases hmem

end Trail

namespace Place

/-- New children of the current node. -/
lemma grown (h : Place root heap cur v b) (hgrown : Grown cur ids heap heap')
    (htidy : Tidy heap') (hown : Own root heap')
    (htaken : w → v ∨ ∃ l ∈ ids, parentOf heap' l = some cur) : Place root heap' cur w b := by
  have hcur := h.lt
  refine ⟨htidy, hcur.trans_le hgrown.length, ?_, ?_, hown⟩
  · exact h.trail.mono (fun i hi => hgrown.parentOf_eq (by omega)) hgrown.prefix_nodesOf
  · intro hw
    obtain hv | ⟨l, hl, hparent⟩ := htaken hw
    · obtain ⟨l, hl, hparent⟩ := h.taken hv
      refine ⟨l, (hgrown.prefix_nodesOf cur).subset hl, ?_⟩
      rw [hgrown.parentOf_eq (tidy_iff.1 h.tidy cur l hl).2, hparent]
    · refine ⟨l, ?_, hparent⟩
      rw [hgrown.nodesOf_cur hcur]
      exact List.mem_append_right _ hl

lemma add (h : Place root heap cur v b) {name : CStr} {t : Token}
    (hadd : addVariable D heap cur name t = some heap') (w : Bool) :
    Place root heap' cur w b := by
  obtain ⟨hcur, hgrown, hlen, hnil, hparent, -⟩ := addVariable_spec hadd
  have htidy : Tidy heap' := by
    refine hgrown.tidy h.tidy ?_ ?_
    · intro k hk
      rw [List.mem_singleton.1 hk]
      omega
    · intro i node hi hnode
      have hlt : i < heap'.length := (List.getElem?_eq_some_iff.1 hnode).1
      obtain rfl : i = heap.length := by omega
      rw [← nodesOf_eq hnode, hnil]
  have hown : Own root heap' := by
    intro i hi x hx
    have hlt := parentOf_lt hx
    rcases Nat.lt_or_ge i heap.length with hold | hnew
    · rw [hgrown.parentOf_eq hold] at hx
      exact h.own i hi x hx
    · obtain rfl : i = heap.length := by omega
      obtain rfl : cur = x := Option.some.inj (hparent.symm.trans hx)
      exact h.trail.le
  exact h.grown hgrown htidy hown fun _ => .inr ⟨_, List.mem_singleton_self _, hparent⟩

lemma descend (h : Place root heap cur v b) {child : ℕ}
    (hmove : move heap cur .descend = some (heap', child)) :
    Place root heap' child false (b + 1) := by
  obtain ⟨hlast, hlt, hlen, hnodes, hother, hparent, -, -⟩ := move_descend_spec hmove
  have hmem : child ∈ nodesOf heap cur := List.mem_of_getLast? hlast
  have hcur : cur < child := (tidy_iff.1 h.tidy cur child hmem).1
  refine ⟨?_, hlen ▸ hlt, ⟨cur, hparent, hcur, by rwa [hnodes], ?_⟩, by simp, ?_⟩
  · rw [tidy_iff]
    intro i k hk
    rw [hnodes] at hk
    rw [hlen]
    exact tidy_iff.1 h.tidy i k hk
  · refine h.trail.mono (fun i hi => hother i (by omega)) ?_
    intro i
    rw [hnodes]
  · intro i hi x hx
    by_cases hchild : i = child
    · rw [hchild, hparent] at hx
      obtain rfl := Option.some.inj hx
      exact h.trail.le
    · rw [hother i hchild] at hx
      exact h.own i hi x hx

lemma ascend (h : Place root heap cur v (b + 1)) {p : ℕ}
    (hmove : move heap cur .ascend = some (heap', p)) (w : Bool) :
    heap' = heap ∧ Place root heap p w b := by
  obtain ⟨rfl, hp⟩ := move_ascend_spec hmove
  obtain ⟨q, hq, hlt, hmem, htrail⟩ := h.trail
  obtain rfl : p = q := Option.some.inj (hp.symm.trans hq)
  have hcur := h.lt
  exact ⟨rfl, h.tidy, hlt.trans hcur, htrail, fun _ => ⟨cur, hmem, hq⟩, h.own⟩

lemma stay (h : Place root heap cur v b) : Place root heap cur false b :=
  ⟨h.tidy, h.lt, h.trail, by simp, h.own⟩

/-- As long as the root has no child, nothing is open and no value was taken. -/
lemma eq_root (h : Place root heap cur v b) (hroot : nodesOf heap root = []) :
    cur = root ∧ b = 0 ∧ v = false := by
  obtain ⟨rfl, rfl⟩ := h.trail.eq_root hroot
  refine ⟨rfl, rfl, ?_⟩
  by_contra hv
  obtain ⟨l, hl, -⟩ := h.taken (by simpa using hv)
  rw [hroot] at hl
  cases hl

end Place

/-- What a token does to the tree and to the current node, and whether it sets a variable. -/
inductive Moves (D : Doubles F) (heap : Heap F) (cur : ℕ) (v : Bool) (b : ℕ) :
    Bool → Heap F → ℕ → Bool → ℕ → Prop
  | stay : Moves D heap cur v b false heap cur false b
  | ascend {heap' : Heap F} {p : ℕ} {b' : ℕ} (v' : Bool) : b = b' + 1 →
      move heap cur .ascend = some (heap', p) → Moves D heap cur v b false heap' p v' b'
  | descend {heap' : Heap F} {child : ℕ} : v = true →
      move heap cur .descend = some (heap', child) →
      Moves D heap cur v b false heap' child false (b + 1)
  | add {heap' : Heap F} {name : CStr} {t : Token} (v' : Bool) :
      addVariable D heap cur name t = some heap' → Moves D heap cur v b true heap' cur v' b
  | addDescend {heap₁ heap' : Heap F} {child : ℕ} {name : CStr} {t : Token} :
      addVariable D heap cur name t = some heap₁ →
      move heap₁ cur .descend = some (heap', child) →
      Moves D heap cur v b true heap' child false (b + 1)

lemma moves_of_apply {c c' : Control} {line : ℕ} {t : Token} {a : Action} {cur' : ℕ}
    (hstep : c.step line t = .ok (c', a)) (happly : a.apply D heap cur = some (heap', cur')) :
    Moves D heap cur c.varTaked c.braceCount a.adds.isSome heap' cur' c'.varTaked
      c'.braceCount := by
  rcases Control.step_cases hstep with ⟨rfl, hvar, hbrace⟩ | ⟨⟨name, t⟩, rfl, hbrace⟩ |
    ⟨⟨name, t⟩, rfl, hvar, hbrace⟩ | ⟨rfl, hvar, hvar', hbrace⟩ | ⟨rfl, hbrace⟩
  · obtain ⟨rfl, rfl⟩ := Prod.mk.inj (Option.some.inj happly)
    rw [hvar, hbrace]
    exact .stay
  · obtain ⟨heap₁, hadd, hmove⟩ := Option.bind_eq_some_iff.1 happly
    obtain ⟨rfl, rfl⟩ := Prod.mk.inj (Option.some.inj hmove)
    rw [hbrace]
    exact .add _ hadd
  · obtain ⟨heap₁, hadd, hmove⟩ := Option.bind_eq_some_iff.1 happly
    rw [hvar, hbrace]
    exact .addDescend hadd hmove
  · rw [hvar', hbrace]
    exact .descend hvar happly
  · exact .ascend _ hbrace happly

section Moves

variable {adds : Bool} {cur' b' : ℕ} {v' : Bool}

lemma Moves.place (h : Moves D heap cur v b adds heap' cur' v' b')
    (hplace : Place root heap cur v b) :
    Place root heap' cur' v' b' := by
  cases h with
  | stay => exact hplace.stay
  | ascend v' hb hmove =>
    rw [hb] at hplace
    obtain ⟨rfl, hplace'⟩ := hplace.ascend hmove v'
    exact hplace'
  | descend hv hmove => exact hplace.descend hmove
  | add v' hadd => exact hplace.add hadd v'
  | addDescend hadd hmove => exact (hplace.add hadd true).descend hmove

lemma frame_descend {child : ℕ} (hplace : Place root heap cur v b)
    (hmove : move heap cur .descend = some (heap', child)) : Frame root heap heap' := by
  obtain ⟨hlast, -, hlen, -, -, -, -, hother⟩ := move_descend_spec hmove
  have hlt := (tidy_iff.1 hplace.tidy cur child (List.mem_of_getLast? hlast)).1
  have hle := hplace.trail.le
  exact ⟨hlen.ge, fun i hi => hother i (by omega)⟩

lemma Moves.frame (h : Moves D heap cur v b adds heap' cur' v' b')
    (hplace : Place root heap cur v b) :
    Frame root heap heap' := by
  have hframe : ∀ {heap₁ name t}, addVariable D heap cur name t = some heap₁ →
      Frame root heap heap₁ := fun hadd =>
    (addVariable_spec hadd).2.1.frame hplace.trail.le hplace.lt
  cases h with
  | stay => exact .refl root heap
  | ascend v' hb hmove => exact (move_ascend_spec hmove).1 ▸ .refl root heap
  | descend hv hmove => exact frame_descend hplace hmove
  | add v' hadd => exact hframe hadd
  | addDescend hadd hmove =>
    exact (hframe hadd).trans (frame_descend (hplace.add hadd true) hmove)

/-- The root stays without a child exactly when no variable is set. -/
lemma Moves.root_nil (h : Moves D heap cur v b adds heap' cur' v' b')
    (hplace : Place root heap cur v b) :
    nodesOf heap' root = [] ↔ nodesOf heap root = [] ∧ adds = false := by
  have hadd : ∀ {heap₁ name t}, addVariable D heap cur name t = some heap₁ →
      nodesOf heap₁ root ≠ [] := by
    intro heap₁ name t hadd hnil
    obtain ⟨hcur, hgrown, -⟩ := addVariable_spec hadd
    have hold : nodesOf heap root = [] :=
      List.prefix_nil.1 (hnil ▸ hgrown.prefix_nodesOf root)
    obtain ⟨rfl, -⟩ := hplace.eq_root hold
    rw [hgrown.nodesOf_cur hcur] at hnil
    simp at hnil
  cases h with
  | stay => simp
  | ascend v' hb hmove => simp [(move_ascend_spec hmove).1]
  | descend hv hmove => simp [(move_descend_spec hmove).2.2.2.1 root]
  | add v' hadd' => simp [hadd hadd']
  | addDescend hadd' hmove => simp [(move_descend_spec hmove).2.2.2.1 root, hadd hadd']

end Moves

/-! ## Included files -/

/-- What a call has left: new nodes only, and a root without children if the file is quiet. -/
structure Outcome (heap : Heap F) (quiet : Prop) (p : Parsed F) : Prop where
  tidy : Tidy p.globals.heap
  frame : Frame heap.length heap p.globals.heap
  root : ∀ r ∈ p.root, heap.length ≤ r
  own : Own heap.length p.globals.heap
  nil_iff : (∀ r ∈ p.root, nodesOf p.globals.heap r = []) ↔ quiet

lemma copyChilds_spec (hcur : cur < heap.length) (src : Option ℕ) :
    Grown cur ((src.map (nodesOf heap)).getD []) heap (copyChilds heap cur src) ∧
      (copyChilds heap cur src).length = heap.length := by
  have hnode : heap[cur]? = some heap[cur] := List.getElem?_eq_getElem hcur
  cases hsrc : src.bind (heap[·]?) with
  | none =>
    have hnil : (src.map (nodesOf heap)).getD [] = [] := by
      cases src with
      | none => rfl
      | some r =>
        have hr : heap[r]? = none := hsrc
        simp [nodesOf, hr]
    have hcopy : copyChilds heap cur src = heap := by simp [copyChilds, hnode, hsrc]
    rw [hnil, hcopy]
    exact ⟨.refl cur heap, rfl⟩
  | some s =>
    obtain ⟨r, rfl, hr⟩ := Option.bind_eq_some_iff.1 hsrc
    have hcopy : copyChilds heap cur (some r) =
        heap.set cur { heap[cur] with nodes := heap[cur].nodes ++ s.nodes } := by
      simp [copyChilds, hnode, hr]
    rw [Option.map_some, Option.getD_some, nodesOf_eq hr, hcopy]
    refine ⟨⟨by simp, fun i _ hne => List.getElem?_set_ne hne.symm, ?_⟩, by simp⟩
    intro node hnode'
    obtain rfl := Option.some.inj (hnode.symm.trans hnode')
    exact List.getElem?_set_self hcur

variable {parseFile : CStr → Globals F → Except Stop (Parsed F)} {dir : CStr}

/-- The children of the root of a file were added by the file, behind the root. -/
lemma Outcome.child_lt {quiet : Prop} {p : Parsed F} (h : Outcome heap quiet p) {k : ℕ}
    (hk : k ∈ (p.root.map (nodesOf p.globals.heap)).getD []) :
    heap.length < k ∧ k < p.globals.heap.length := by
  cases hroot : p.root with
  | none => simp [hroot] at hk
  | some r =>
    rw [hroot, Option.map_some, Option.getD_some] at hk
    obtain ⟨hlt, hlt'⟩ := tidy_iff.1 h.tidy r k hk
    have hr := h.root r hroot
    omega

/-- Nodes that are only added do not matter to what is added to a node after them. -/
lemma Frame.grown {heap₁ : Heap F} (h : Frame heap.length heap heap₁) (hcur : cur < heap.length)
    (hgrown : Grown cur ids heap₁ heap') : Grown cur ids heap heap' := by
  refine ⟨h.length.trans hgrown.length, ?_, ?_⟩
  · intro i hi hne
    rw [hgrown.old i (hi.trans_le h.length) hne, h.old i hi]
  · intro node hnode
    exact hgrown.cur node ((h.old cur hcur).trans hnode)

/-- The children that an included file adds know another parent, and a quiet file adds none. -/
lemma Place.includeFile {token : CStr} {g g' : Globals F} {quiet : Prop}
    (h : Place root g.heap cur v b)
    (hfile : ∀ p, parseFile (includeName dir token) g = .ok p → Outcome g.heap quiet p)
    (hinclude : includeFile parseFile dir cur token g = .ok g') :
    ∃ ids, Grown cur ids g.heap g'.heap ∧ Place root g'.heap cur v b ∧ (ids = [] ↔ quiet) ∧
      ∀ k ∈ ids, parentOf g'.heap k ≠ some cur := by
  obtain ⟨p, hp, hg'⟩ := bind_eq_ok hinclude
  obtain rfl := Except.ok.inj hg'
  have hout := hfile p hp
  have hcur := h.lt
  have hle := h.trail.le
  have hcur' : cur < p.globals.heap.length := hcur.trans_le hout.frame.length
  obtain ⟨hgrown, hlen⟩ := copyChilds_spec hcur' p.root
  generalize hids : (p.root.map (nodesOf p.globals.heap)).getD [] = ids at hgrown
  have hmem : ∀ k ∈ ids, g.heap.length < k ∧ k < p.globals.heap.length :=
    fun k hk => hout.child_lt (hids ▸ hk)
  have hall : Grown cur ids g.heap (copyChilds p.globals.heap cur p.root) :=
    hout.frame.grown hcur hgrown
  have htidy : Tidy (copyChilds p.globals.heap cur p.root) := by
    refine hgrown.tidy hout.tidy ?_ ?_
    · intro k hk
      obtain ⟨hlt, hlt'⟩ := hmem k hk
      omega
    · intro i node hi hnode
      rw [List.getElem?_eq_none (hlen ▸ hi)] at hnode
      cases hnode
  have hparent : ∀ i x, parentOf (copyChilds p.globals.heap cur p.root) i = some x →
      parentOf p.globals.heap i = some x := by
    intro i x hx
    rwa [hgrown.parentOf_eq (hlen ▸ parentOf_lt hx)] at hx
  have hown : Own root (copyChilds p.globals.heap cur p.root) := by
    intro i hi x hx
    rcases Nat.lt_or_ge i g.heap.length with hold | hnew
    · have hx' := hparent i x hx
      rw [hout.frame.parentOf_eq hold] at hx'
      exact h.own i hi x hx'
    · have hx' := hout.own i hnew x (hparent i x hx)
      omega
  refine ⟨ids, hall, h.grown hall htidy hown .inl, ?_, ?_⟩
  · rw [← hout.nil_iff, ← hids]
    cases p.root with
    | none => simp
    | some r => simp
  · intro k hk hx
    have hx' := hout.own k (hmem k hk).1.le cur (hparent k cur hx)
    omega

/-! ## A whole text -/

/-- The steps of the parser through a text, with the files that are included and the variables that
are set on the way. -/
inductive Runs (D : Doubles F) (quiet : CStr → Prop) (root : ℕ) :
    Heap F → ℕ → Bool → ℕ → List CStr → List ℕ → Heap F → Prop
  | done {heap : Heap F} {cur : ℕ} {v : Bool} {b : ℕ} :
      Place root heap cur v b → Runs D quiet root heap cur v b [] [] heap
  | incl {heap heap₁ heap' : Heap F} {cur : ℕ} {v : Bool} {b : ℕ} {f : CStr} {fs : List CStr}
      {ss ids : List ℕ} :
      Place root heap cur v b → Grown cur ids heap heap₁ → (ids = [] ↔ quiet f) →
      (∀ k ∈ ids, parentOf heap₁ k ≠ some cur) → Runs D quiet root heap₁ cur v b fs ss heap' →
      Runs D quiet root heap cur v b (f :: fs) ss heap'
  | move {heap heap₁ heap' : Heap F} {cur cur₁ : ℕ} {v v₁ adds : Bool} {b b₁ : ℕ}
      {fs : List CStr} {ss : List ℕ} :
      Place root heap cur v b → Moves D heap cur v b adds heap₁ cur₁ v₁ b₁ →
      Runs D quiet root heap₁ cur₁ v₁ b₁ fs ss heap' →
      Runs D quiet root heap cur v b fs ((if adds then [b] else []) ++ ss) heap'

/-- Every parsing that returns is such a run. -/
lemma runs_of_parseLoop {quiet : CStr → Prop} {fuel : ℕ} {c : Control} {data : Option CStr}
    {g : Globals F} {p : Parsed F} (h : Place root g.heap cur c.varTaked c.braceCount)
    (hfiles : ∀ f ∈ (outline D dir fuel c data).1, ∀ g p, Tidy g.heap → parseFile f g = .ok p →
      Outcome g.heap (quiet f) p)
    (hparse : parseLoop D parseFile dir root fuel c cur data g = .ok p) :
    p.root = some root ∧ Runs D quiet root g.heap cur c.varTaked c.braceCount
      (outline D dir fuel c data).1 (settings fuel c data) p.globals.heap := by
  induction fuel generalizing c cur data g with
  | zero => cases hparse
  | succ fuel ih =>
    have hround := round D parseFile dir root fuel c cur data g
    generalize (outline D dir (fuel + 1) c data).1 = fs at hround hfiles ⊢
    generalize settings (fuel + 1) c data = ss at hround ⊢
    generalize parseLoop D parseFile dir root (fuel + 1) c cur data g = r at hround hparse
    cases hround with
    | fault => cases hparse
    | ends hroot hheap =>
      obtain rfl := Except.ok.inj hparse
      rw [hheap]
      exact ⟨hroot, .done h⟩
    | last token hheap =>
      obtain ⟨g₁, hg₁, hp⟩ := bind_eq_ok hparse
      obtain rfl := Except.ok.inj hp
      rw [← hheap] at h ⊢
      obtain ⟨ids, hgrown, hplace, hquiet, hparent⟩ :=
        h.includeFile (fun p => hfiles _ List.mem_cons_self _ p h.tidy) hg₁
      obtain ⟨hroot, hheap'⟩ := finishBuf_globals root c g₁
      rw [hheap']
      exact ⟨hroot, .incl h hgrown hquiet hparent (.done hplace)⟩
    | more token data hheap =>
      obtain ⟨g₁, hg₁, hp⟩ := bind_eq_ok hparse
      rw [← hheap] at h ⊢
      obtain ⟨ids, hgrown, hplace, hquiet, hparent⟩ :=
        h.includeFile (fun p => hfiles _ List.mem_cons_self _ p h.tidy) hg₁
      obtain ⟨hroot, hruns⟩ := ih hplace (fun f hf => hfiles f (List.mem_cons_of_mem _ hf)) hp
      exact ⟨hroot, .incl h hgrown hquiet hparent hruns⟩
    | @token line t c' a data hstep =>
      cases happly : a.apply D g.heap cur with
      | none => simp [happly] at hparse
      | some r =>
        obtain ⟨heap₁, cur₁⟩ := r
        simp only [happly] at hparse
        rw [if_pos (adds_of_apply happly)] at hfiles ⊢
        have hmoves := moves_of_apply hstep happly
        obtain ⟨hroot, hruns⟩ := ih (hmoves.place h) hfiles hparse
        exact ⟨hroot, .move h hmoves hruns⟩

namespace Runs

variable {quiet : CStr → Prop} {fs : List CStr} {ss : List ℕ}

/-- Nodes below the root of the text stay as they are, and the tree stays tidy. -/
lemma frame (h : Runs D quiet root heap cur v b fs ss heap') :
    Frame root heap heap' ∧ Tidy heap' ∧ Own root heap' := by
  induction h with
  | done hplace => exact ⟨.refl _ _, hplace.tidy, hplace.own⟩
  | incl hplace hgrown _ _ _ ih =>
    exact ⟨(hgrown.frame hplace.trail.le hplace.lt).trans ih.1, ih.2⟩
  | move hplace hmoves _ ih => exact ⟨(hmoves.frame hplace).trans ih.1, ih.2⟩

/-- The root stays without a child exactly when nothing is set, here or in an included file. -/
lemma root_nil (h : Runs D quiet root heap cur v b fs ss heap') :
    nodesOf heap' root = [] ↔ nodesOf heap root = [] ∧ ss = [] ∧ ∀ f ∈ fs, quiet f := by
  induction h with
  | done => simp
  | @incl heap heap₁ heap' cur v b f fs ss ids hplace hgrown hquiet _ _ ih =>
    have hroot : nodesOf heap₁ root = [] ↔ nodesOf heap root = [] ∧ ids = [] := by
      constructor
      · intro hnil
        have hold : nodesOf heap root = [] :=
          List.prefix_nil.1 (hnil ▸ hgrown.prefix_nodesOf root)
        obtain ⟨rfl, -⟩ := hplace.eq_root hold
        rw [hgrown.nodesOf_cur hplace.lt, List.append_eq_nil_iff] at hnil
        exact hnil
      · rintro ⟨hold, hnil⟩
        obtain ⟨rfl, -⟩ := hplace.eq_root hold
        rw [hgrown.nodesOf_cur hplace.lt, hold, hnil]
        rfl
    rw [ih, hroot, hquiet, List.forall_mem_cons]
    tauto
  | @move heap heap₁ heap' cur cur₁ v v₁ adds b b₁ fs ss hplace hmoves _ ih =>
    rw [ih, hmoves.root_nil hplace]
    cases adds with
    | false => simp
    | true => simp

end Runs

/-- The root of a new tree. -/
lemma Place.start (htidy : Tidy heap) {node : Node F} (hnodes : node.nodes = [])
    (hparent : node.parent = none) :
    Place heap.length (heap ++ [node]) heap.length false 0 := by
  refine ⟨(Cursor.start htidy node hnodes).tidy, by simp, rfl, by simp, ?_⟩
  intro i hi x hx
  have hlt := parentOf_lt hx
  obtain rfl : i = heap.length := by
    rw [List.length_append, List.length_singleton] at hlt
    omega
  simp [parentOf, hparent] at hx

lemma runs_of_parseBuf {quiet : CStr → Prop} {data : CStr} {g : Globals F} {p : Parsed F}
    (htidy : Tidy g.heap)
    (hfiles : ∀ f ∈ (outline D dir (data.length + 1) Control.start (some data)).1, ∀ g p,
      Tidy g.heap → parseFile f g = .ok p → Outcome g.heap (quiet f) p)
    (hparse : parseBuf D parseFile dir data g = .ok p) :
    p.root = some g.heap.length ∧ ∃ value, Runs D quiet g.heap.length
      (g.heap ++ [⟨0, "root".toList, value, [], none⟩]) g.heap.length false 0
      (outline D dir (data.length + 1) Control.start (some data)).1 (bufSettings data)
      p.globals.heap := by
  rw [parseBuf] at hparse
  split at hparse
  · cases hparse
  · rename_i value hvalue
    obtain ⟨hroot, hruns⟩ := runs_of_parseLoop (Place.start htidy rfl rfl) hfiles hparse
    exact ⟨hroot, value, hruns⟩

variable {files : List (CStr × CStr)}

/-- A file adds new nodes only, and it has children exactly when it or a file below it sets a
variable. -/
lemma parseFile_outcome {fuel : ℕ} {fn : CStr} {g : Globals F} {p : Parsed F}
    (htidy : Tidy g.heap)
    (hparse : Hive.parseFile D (fun fn => files.lookup fn) fuel fn g = .ok p) :
    Outcome g.heap (Quiet D files fn) p := by
  induction fuel generalizing fn g p with
  | zero => cases hparse
  | succ fuel ih =>
    rw [Hive.parseFile] at hparse
    cases hload : files.lookup fn with
    | none =>
      simp only [hload] at hparse
      obtain rfl := Except.ok.inj hparse
      have hquiet : Quiet D files fn := by
        rw [quiet_iff]
        simp [fileSettings, survey, hload]
      refine ⟨htidy, .refl _ _, by simp, ?_, by simp [hquiet]⟩
      intro i hi x hx
      exact absurd (parentOf_lt hx) (Nat.not_lt.2 hi)
    | some data =>
      simp only [hload] at hparse
      by_cases hdir : 4096 ≤ (dirname fn).length
      · simp [hdir] at hparse
      rw [if_neg hdir] at hparse
      have hsurvey : survey D files fn =
          outline D (dirname fn) (data.length + 1) Control.start (some data) := by
        simp [survey, hload, hdir]
      have hsettings : fileSettings files fn = bufSettings data := by
        simp [fileSettings, hload, hdir]
      obtain ⟨hroot, value, hruns⟩ := runs_of_parseBuf htidy
        (fun f _ g p htidy hp => ih htidy hp) hparse
      obtain ⟨hframe, htidy', hown⟩ := hruns.frame
      have hnew : nodesOf (g.heap ++ [⟨0, "root".toList, value, [], none⟩]) g.heap.length = [] := by
        simp [nodesOf]
      refine ⟨htidy', ⟨?_, ?_⟩, ?_, hown, ?_⟩
      · refine le_trans ?_ hframe.length
        simp
      · intro i hi
        rw [hframe.old i hi, List.getElem?_append_left hi]
      · intro r hr
        rw [hroot, Option.mem_some_iff] at hr
        exact hr.le
      · rw [quiet_iff, hsettings, hsurvey, hroot]
        simp only [Option.mem_some_iff, forall_eq']
        rw [hruns.root_nil, hnew]
        simp

end Places

end WebTester.Hive
