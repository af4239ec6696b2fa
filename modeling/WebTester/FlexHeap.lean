import Mathlib.Data.List.Nodup
import WebTester.FlexVal

/-!
# Flexible values in a heap

The descriptors of flexible values with their addresses. The elements of an array are descriptors of
their own, named by the block of pointers that belongs to the array. An address is given once; an
operation that reads a released descriptor, or an element where there is no pointer, fails. `malloc`
gives `NULL` only for a number of pointers that is no `int`, and of a block only the pointers in
front of its `NULL` are kept.
-/
namespace WebTester.FlexHeap
open CString Flexval

variable {F : Type} (D : Doubles F)

/-- `flex_value_t`. -/
structure Node (F : Type) where
  integer : ℤ
  real : F
  pchar : Option CStr
  type : FvType
  length : ℕ
  data : Option (List ℕ)
  allocated : Bool

/-- Addresses from `next` on were never given. -/
structure Heap (F : Type) where
  nodes : ℕ → Option (Node F)
  next : ℕ

/-- Why an operation fails. -/
inductive Fault
  | fuel
  | released
  | null
  deriving DecidableEq, Repr

/-- The elements of a value. -/
def Node.elems (node : Node F) : List ℕ := node.data.getD []

/-- `FLEXVAL_ARRAY_ELEM`. -/
def Node.elem (node : Node F) (i : ℕ) : Except Fault ℕ :=
  match node.elems[i]? with
  | some e => .ok e
  | none => .error .null

/-- The text and its other readings, `flexval_eval_from_string`. -/
def Node.setText (s : CStr) (node : Node F) : Node F :=
  let node := { node with pchar := some (FlexVal.bufferText s) }
  if isNumber (FlexVal.bufferText s) then { node with
    integer := flexvalAtol (FlexVal.bufferText s)
    real := D.flexvalAtolf (FlexVal.bufferText s)
    type := .string }
  else
    let truth : ℤ := if isTruth (FlexVal.bufferText s) then 1 else 0
    { node with integer := truth, real := D.ofLong truth }

/-- `flexval_eval_from_int`. -/
def Node.setLong (x : ℤ) (node : Node F) : Node F :=
  { node with integer := x, real := D.ofLong x, pchar := some (printLong x), type := .integer }

/-- `flexval_eval_from_float`. -/
def Node.setReal (x : F) (node : Node F) : Node F :=
  { node with
    integer := D.toLong x, real := x, pchar := some (FlexVal.realText D x), type := .float }

namespace Heap

def read (h : Heap F) (a : ℕ) : Except Fault (Node F) :=
  match h.nodes a with
  | some node => .ok node
  | none => .error .released

def write (h : Heap F) (a : ℕ) (node : Node F) : Heap F :=
  { h with nodes := Function.update h.nodes a (some node) }

def modify (h : Heap F) (a : ℕ) (f : Node F → Node F) : Except Fault (Heap F) := do
  let node ← h.read a
  return h.write a (f node)

/-- `free` of a descriptor, or the end of the function that it belongs to. -/
def release (h : Heap F) (a : ℕ) : Heap F :=
  { h with nodes := Function.update h.nodes a none }

/-- A new descriptor. -/
def insert (h : Heap F) (node : Node F) : Heap F :=
  ⟨Function.update h.nodes h.next (some node), h.next + 1⟩

end Heap

/-! ## Releasing -/

/-- The loop of `flexval_free_array_entry` over so many elements of `a`, from an index on. -/
def freeElems (free : Heap F → ℕ → Except Fault (Heap F)) (a : ℕ) :
    ℕ → ℕ → Heap F → Except Fault (Heap F)
  | 0, _, h => .ok h
  | n + 1, i, h => do
    let node ← h.read a
    let elem ← node.elem i
    let h ← free h elem
    freeElems free a n (i + 1) h

/-- `flexval_free_array_entry`: inside of an array the descriptor is released before its elements
are looked at. -/
def freeArrayEntry : ℕ → (interior : ℕ) → Heap F → ℕ → Except Fault (Heap F)
  | 0, _, _, _ => .error .fuel
  | fuel + 1, interior, h, a => do
    let h ← if interior = 0 then .ok h else do
      let h ← h.modify a fun node => { node with pchar := none }
      let node ← h.read a
      if node.allocated then .ok (h.release a) else .ok h
    let node ← h.read a
    let h ← freeElems (freeArrayEntry fuel (interior + 1)) a node.length 0 h
    h.modify a fun node => { node with data := none }

section Operations

variable (fuel : ℕ) (h : Heap F)

/-- `flexval_free_array`. -/
def flexvalFreeArray (a : ℕ) : Except Fault (Heap F) := freeArrayEntry fuel 0 h a

/-- `flexval_free`. -/
def flexvalFree (a : ℕ) : Except Fault (Heap F) := do
  let h ← h.modify a fun node => { node with pchar := none }
  let h ← flexvalFreeArray fuel h a
  let node ← h.read a
  return if node.allocated then h.release a else h

/-! ## Setting -/

/-- `flexval_set_string`. -/
def flexvalSetString (a : ℕ) (s : CStr) : Except Fault (Heap F) := do
  let h ← flexvalFreeArray fuel h a
  h.modify a (Node.setText D s)

/-- `flexval_set_int`. -/
def flexvalSetInt (a : ℕ) (x : ℤ) : Except Fault (Heap F) := do
  let h ← flexvalFreeArray fuel h a
  h.modify a (Node.setLong D x)

/-- `flexval_set_float`. -/
def flexvalSetFloat (a : ℕ) (x : F) : Except Fault (Heap F) := do
  let h ← flexvalFreeArray fuel h a
  h.modify a (Node.setReal D x)

/-- `flexval_alloc`, and `flexval_create` of a new variable, which is not allocated. -/
def flexvalCreate (allocated : Bool) : Except Fault (Heap F × ℕ) := do
  let a := h.next
  let h := h.insert ⟨0, D.ofLong 0, none, .undefined, 0, none, allocated⟩
  let h ← flexvalSetString D fuel h a []
  let h ← h.modify a fun node => { node with type := .undefined }
  return (h, a)

end Operations

/-! ## Copying -/

/-- `malloc` of a block for so many pointers, which are counted by an `int`: more of them are a
negative number, and what is written then goes through `NULL`. -/
def mallocPointers (count : ℕ) : Except Fault Unit :=
  if count < 2 ^ 31 then .ok () else .error .null

/-- The loop of `flexval_dup` over so many elements of `a`, from an index on. -/
def dupElems (dup : Heap F → ℕ → Except Fault (Heap F × ℕ)) (a : ℕ) :
    ℕ → ℕ → Heap F → Except Fault (Heap F × List ℕ)
  | 0, _, h => .ok (h, [])
  | n + 1, i, h => do
    let node ← h.read a
    let elem ← node.elem i
    let (h, q) ← dup h elem
    let (h, qs) ← dupElems dup a n (i + 1) h
    return (h, q :: qs)

/-- `flexval_dup`. The pointers of the copy are written when all of them are known; no one looks at
the copy before. -/
def flexvalDup : ℕ → Heap F → ℕ → Except Fault (Heap F × ℕ)
  | 0, _, _ => .error .fuel
  | fuel + 1, h, a => do
    let node ← h.read a
    let (h, p) ← flexvalCreate D (fuel + 1) h true
    let h ← match node.pchar with
      | none => .ok h
      | some s => flexvalSetString D (fuel + 1) h p s
    let h ← h.modify p fun copy => { copy with
      integer := node.integer, real := node.real, length := 0, data := none, type := node.type }
    if node.type = .array then do
      mallocPointers (node.length + 1)
      let (h, qs) ← dupElems (flexvalDup fuel) a node.length 0 h
      let h ← h.modify p fun copy => { copy with length := node.length, data := some qs }
      return (h, p)
    else return (h, p)

/-- The loop of `flexval_set_array` over the values that it is given. -/
def dupAll (fuel : ℕ) : Heap F → List ℕ → Except Fault (Heap F × List ℕ)
  | h, [] => .ok (h, [])
  | h, e :: data => do
    let (h, q) ← flexvalDup D fuel h e
    let (h, qs) ← dupAll fuel h data
    return (h, q :: qs)

section Operations

variable (fuel : ℕ) (h : Heap F)

/-- `flexval_set_array`. -/
def flexvalSetArray (a : ℕ) (data : List ℕ) : Except Fault (Heap F) := do
  let h ← flexvalSetString D fuel h a []
  let h ← h.modify a fun node => { node with pchar := some "Array".toList }
  mallocPointers (data.length + 1)
  let (h, qs) ← dupAll D fuel h data
  h.modify a fun node => { node with length := data.length, data := some qs, type := .array }

/-- `flexval_array_append`: the pointers in front of the length are kept. -/
def flexvalArrayAppend (a element : ℕ) : Except Fault (Heap F) := do
  let h ← h.modify a fun node => { node with
    integer := 0, real := D.ofLong 0, pchar := some "Array".toList, type := .array }
  let (h, p) ← flexvalDup D fuel h element
  let node ← h.read a
  mallocPointers (node.length + 2)
  if node.length ≤ node.elems.length then
    return h.write a { node with
      length := node.length + 1, data := some (node.elems.take node.length ++ [p]) }
  else .error .null

/-- The functions that append a variable of their own, after `set` has set it. -/
def appendVariable (set : Heap F → ℕ → Except Fault (Heap F)) (a : ℕ) : Except Fault (Heap F) := do
  let (h, data) ← flexvalCreate D fuel h false
  let h ← set h data
  let h ← flexvalArrayAppend D fuel h a data
  let h ← flexvalFree fuel h data
  return h.release data

/-- `flexval_array_append_int`. -/
def flexvalArrayAppendInt (a : ℕ) (x : ℤ) : Except Fault (Heap F) :=
  appendVariable D fuel h (fun h data => flexvalSetInt D fuel h data x) a

/-- `flexval_array_append_float`. -/
def flexvalArrayAppendFloat (a : ℕ) (x : F) : Except Fault (Heap F) :=
  appendVariable D fuel h (fun h data => flexvalSetFloat D fuel h data x) a

/-- `flexval_array_append_string`. -/
def flexvalArrayAppendString (a : ℕ) (s : CStr) : Except Fault (Heap F) :=
  appendVariable D fuel h (fun h data => flexvalSetString D fuel h data s) a

/-- `flexval_array_append_array`. -/
def flexvalArrayAppendArray (a : ℕ) (vs : List ℕ) : Except Fault (Heap F) :=
  appendVariable D fuel h (fun h data => flexvalSetArray D fuel h data vs) a

/-- `flexval_get_array_elem`. -/
def flexvalGetArrayElem (a : ℕ) (index : ℤ) : Except Fault (Option ℕ) := do
  let node ← h.read a
  if 0 ≤ index ∧ index < node.length then
    return some (← node.elem index.toNat)
  else return none

end Operations

/-! ## Ownership -/

namespace Heap

/-- The elements of the value at an address, none where there is no value. -/
def elemsOf (h : Heap F) (a : ℕ) : List ℕ := ((h.nodes a).map Node.elems).getD []

variable {h : Heap F} {a : ℕ} {node : Node F}

lemma elemsOf_eq (ha : h.nodes a = some node) : h.elemsOf a = node.elems := by
  rw [elemsOf, ha]
  rfl

lemma elemsOf_update (h : Heap F) (a n : ℕ) (x : Option (Node F)) :
    elemsOf ⟨Function.update h.nodes a x, n⟩ =
      Function.update h.elemsOf a ((x.map Node.elems).getD []) := by
  ext1 b
  by_cases hb : b = a
  · subst hb
    simp [elemsOf]
  · simp [elemsOf, hb]

lemma elemsOf_write (h : Heap F) (a : ℕ) (node : Node F) :
    (h.write a node).elemsOf = Function.update h.elemsOf a node.elems :=
  elemsOf_update h a h.next (some node)

lemma elemsOf_release (h : Heap F) (a : ℕ) :
    (h.release a).elemsOf = Function.update h.elemsOf a [] :=
  elemsOf_update h a h.next none

lemma elemsOf_insert (h : Heap F) (node : Node F) :
    (h.insert node).elemsOf = Function.update h.elemsOf h.next node.elems :=
  elemsOf_update h h.next (h.next + 1) (some node)

@[simp] lemma write_nodes (h : Heap F) (a : ℕ) (node : Node F) :
    (h.write a node).nodes a = some node := Function.update_self ..

lemma write_nodes_of_ne {b : ℕ} (hb : b ≠ a) (node : Node F) :
    (h.write a node).nodes b = h.nodes b := Function.update_of_ne hb ..

lemma elemsOf_write_self (h : Heap F) (a : ℕ) (node : Node F) :
    (h.write a node).elemsOf a = node.elems := by
  rw [elemsOf_write, Function.update_self]

lemma elemsOf_write_of_ne {b : ℕ} (hb : b ≠ a) (node : Node F) :
    (h.write a node).elemsOf b = h.elemsOf b := by
  rw [elemsOf_write, Function.update_of_ne hb]

/-- A value that is there stays there. -/
lemma isSome_write {e : ℕ} (he : (h.nodes e).isSome) (a : ℕ) (node : Node F) :
    ((h.write a node).nodes e).isSome := by
  by_cases hea : e = a
  · rw [hea, write_nodes]
    rfl
  · rwa [write_nodes_of_ne hea]

@[simp] lemma write_write (h : Heap F) (a : ℕ) (m n : Node F) :
    (h.write a m).write a n = h.write a n := by simp [write]

@[simp] lemma insert_nodes (h : Heap F) (node : Node F) :
    (h.insert node).nodes h.next = some node := Function.update_self ..

@[simp] lemma insert_write (h : Heap F) (m n : Node F) :
    (h.insert m).write h.next n = h.insert n := by simp [write, insert]

lemma read_eq (ha : h.nodes a = some node) : h.read a = .ok node := by
  rw [read, ha]

lemma modify_eq (ha : h.nodes a = some node) (f : Node F → Node F) :
    h.modify a f = .ok (h.write a (f node)) := by
  rw [modify, read_eq ha]
  rfl

end Heap

/-- Every array has as many elements as its length says, its elements are there, and no other array
has them. -/
structure WellFormed (h : Heap F) : Prop where
  length : ∀ a node, h.nodes a = some node → node.length = node.elems.length
  live : ∀ a, ∀ e ∈ h.elemsOf a, (h.nodes e).isSome
  nodup : ∀ a, (h.elemsOf a).Nodup
  once : ∀ a b e, e ∈ h.elemsOf a → e ∈ h.elemsOf b → a = b

/-- In addition the elements were allocated, and after the array that they belong to, and an `int`
counts the pointers of an array. -/
structure Inv (h : Heap F) : Prop extends WellFormed h where
  bounded : ∀ a node, h.nodes a = some node → a < h.next
  short : ∀ a node, h.nodes a = some node → node.length + 1 < 2 ^ 31
  after : ∀ a, ∀ e ∈ h.elemsOf a, a < e
  allocated : ∀ a, ∀ e ∈ h.elemsOf a, ∀ node, h.nodes e = some node → node.allocated = true

namespace Inv

variable {h : Heap F} {a e : ℕ} {node old : Node F}

lemma lt_next (hI : Inv h) (he : e ∈ h.elemsOf a) : e < h.next := by
  obtain ⟨node, hnode⟩ := Option.isSome_iff_exists.1 (hI.live a e he)
  exact hI.bounded e node hnode

lemma elem (hI : Inv h) (he : e ∈ h.elemsOf a) :
    ∃ elem, h.nodes e = some elem ∧ elem.allocated = true := by
  obtain ⟨elem, helem⟩ := Option.isSome_iff_exists.1 (hI.live a e he)
  exact ⟨elem, helem, hI.allocated a e he elem helem⟩

/-- After a value got elements, those of every value are there. -/
lemma elem_write (hI : Inv h) (ha : h.nodes a = some old) (halloc : node.allocated = old.allocated)
    (hafter : ∀ e ∈ node.elems, a < e)
    (hlive : ∀ e ∈ node.elems, ∃ elem, h.nodes e = some elem ∧ elem.allocated = true) {b : ℕ}
    (he : e ∈ (h.write a node).elemsOf b) :
    b < e ∧ ∃ elem, (h.write a node).nodes e = some elem ∧ elem.allocated = true := by
  have hold : b < e ∧ ∃ elem, h.nodes e = some elem ∧ elem.allocated = true := by
    by_cases hb : b = a
    · subst hb
      rw [Heap.elemsOf_write_self] at he
      exact ⟨hafter e he, hlive e he⟩
    · rw [Heap.elemsOf_write_of_ne hb] at he
      exact ⟨hI.after b e he, hI.elem he⟩
  refine ⟨hold.1, ?_⟩
  by_cases hea : e = a
  · subst hea
    obtain ⟨-, elem, helem, hallocated⟩ := hold
    obtain rfl : elem = old := Option.some.inj (helem.symm.trans ha)
    exact ⟨node, Heap.write_nodes h e node, halloc.trans hallocated⟩
  · rw [Heap.write_nodes_of_ne hea]
    exact hold.2

/-- No element gets a second array. -/
lemma once_write (hI : Inv h) (hfree : ∀ e ∈ node.elems, ∀ b ≠ a, e ∉ h.elemsOf b) (b c e : ℕ)
    (hb : e ∈ (h.write a node).elemsOf b) (hc : e ∈ (h.write a node).elemsOf c) : b = c := by
  by_cases hba : b = a
  · by_cases hca : c = a
    · rw [hba, hca]
    · rw [hba, Heap.elemsOf_write_self] at hb
      rw [Heap.elemsOf_write_of_ne hca] at hc
      exact absurd hc (hfree e hb c hca)
  · rw [Heap.elemsOf_write_of_ne hba] at hb
    by_cases hca : c = a
    · rw [hca, Heap.elemsOf_write_self] at hc
      exact absurd hb (hfree e hc b hba)
    · rw [Heap.elemsOf_write_of_ne hca] at hc
      exact hI.once b c e hb hc

/-- A value gets elements that belong to no other array. -/
lemma write (hI : Inv h) (ha : h.nodes a = some old) (halloc : node.allocated = old.allocated)
    (hlength : node.length = node.elems.length) (hshort : node.length + 1 < 2 ^ 31)
    (hafter : ∀ e ∈ node.elems, a < e)
    (hlive : ∀ e ∈ node.elems, ∃ elem, h.nodes e = some elem ∧ elem.allocated = true)
    (hnodup : node.elems.Nodup) (hfree : ∀ e ∈ node.elems, ∀ b ≠ a, e ∉ h.elemsOf b) :
    Inv (h.write a node) := by
  constructor
  · constructor
    · intro b n hb
      by_cases hba : b = a
      · subst hba
        obtain rfl : node = n := by simpa using hb
        exact hlength
      · rw [Heap.write_nodes_of_ne hba] at hb
        exact hI.length b n hb
    · intro b e he
      obtain ⟨-, elem, helem, -⟩ := hI.elem_write ha halloc hafter hlive he
      rw [helem]
      rfl
    · intro b
      by_cases hba : b = a
      · rwa [hba, Heap.elemsOf_write_self]
      · rw [Heap.elemsOf_write_of_ne hba]
        exact hI.nodup b
    · exact hI.once_write hfree
  · intro b n hb
    by_cases hba : b = a
    · rw [hba]
      exact hI.bounded a old ha
    · rw [Heap.write_nodes_of_ne hba] at hb
      exact hI.bounded b n hb
  · intro b n hb
    by_cases hba : b = a
    · subst hba
      obtain rfl : node = n := by simpa using hb
      exact hshort
    · rw [Heap.write_nodes_of_ne hba] at hb
      exact hI.short b n hb
  · intro b e he
    exact (hI.elem_write ha halloc hafter hlive he).1
  · intro b e he n hn
    obtain ⟨-, elem, helem, hallocated⟩ := hI.elem_write ha halloc hafter hlive he
    obtain rfl := Option.some.inj (helem.symm.trans hn)
    exact hallocated

/-- An array gets one more element, which no array has. -/
lemma push (hI : Inv h) (ha : h.nodes a = some node) {p : ℕ}
    (hcount : node.elems.length + 2 < 2 ^ 31) (hafter : a < p)
    (hlive : ∃ elem, h.nodes p = some elem ∧ elem.allocated = true)
    (hfree : ∀ b, p ∉ h.elemsOf b) :
    Inv (h.write a { node with
      length := node.length + 1, data := some (node.elems ++ [p]) }) := by
  have hold : h.elemsOf a = node.elems := Heap.elemsOf_eq ha
  have hlength := hI.length a node ha
  refine hI.write ha rfl ?_ ?_ ?_ ?_ ?_ ?_
  · show node.length + 1 = (node.elems ++ [p]).length
    rw [List.length_append, List.length_singleton, hlength]
  · show node.length + 1 + 1 < 2 ^ 31
    omega
  · show ∀ e ∈ node.elems ++ [p], a < e
    rw [List.forall_mem_append, List.forall_mem_singleton, ← hold]
    exact ⟨hI.after a, hafter⟩
  · show ∀ e ∈ node.elems ++ [p], ∃ elem, h.nodes e = some elem ∧ elem.allocated = true
    rw [List.forall_mem_append, List.forall_mem_singleton, ← hold]
    exact ⟨fun e he => hI.elem he, hlive⟩
  · show (node.elems ++ [p]).Nodup
    rw [← hold, ← List.concat_eq_append, List.nodup_concat]
    exact ⟨hfree a, hI.nodup a⟩
  · show ∀ e ∈ node.elems ++ [p], ∀ b ≠ a, e ∉ h.elemsOf b
    rw [List.forall_mem_append, List.forall_mem_singleton, ← hold]
    exact ⟨fun e he b hb he' => hb (hI.once b a e he' he), fun b _ => hfree b⟩

/-- A value keeps its elements. -/
lemma write_same (hI : Inv h) (ha : h.nodes a = some old) (halloc : node.allocated = old.allocated)
    (hlength : node.length = old.length) (helems : node.elems = old.elems) :
    Inv (h.write a node) := by
  have hself : h.elemsOf a = node.elems := (Heap.elemsOf_eq ha).trans helems.symm
  refine hI.write ha halloc ?_ ?_ ?_ ?_ ?_ ?_
  · rw [hlength, hI.length a old ha, helems]
  · rw [hlength]
    exact hI.short a old ha
  · rw [← hself]
    exact hI.after a
  · rw [← hself]
    exact fun e he => hI.elem he
  · rw [← hself]
    exact hI.nodup a
  · rw [← hself]
    intro e he b hb h'
    exact hb (hI.once b a e h' he)

/-- A value loses its elements, or never had any. -/
lemma write_empty (hI : Inv h) (ha : h.nodes a = some old) (halloc : node.allocated = old.allocated)
    (hlength : node.length = 0) (helems : node.elems = []) : Inv (h.write a node) := by
  refine hI.write ha halloc ?_ ?_ ?_ ?_ ?_ ?_
  · rw [hlength, helems, List.length_nil]
  · rw [hlength]
    decide
  · simp [helems]
  · simp [helems]
  · simp [helems]
  · simp [helems]

lemma insert (hI : Inv h) (hlength : node.length = 0) (helems : node.elems = []) :
    Inv (h.insert node) := by
  have hnew : h.elemsOf h.next = [] := by
    rw [List.eq_nil_iff_forall_not_mem]
    intro e he
    exact absurd (hI.after _ e he) (not_lt.2 (hI.lt_next he).le)
  have hsame : (h.insert node).elemsOf = h.elemsOf := by
    rw [Heap.elemsOf_insert, helems, ← hnew, Function.update_eq_self]
  have hnodes : ∀ b, b ≠ h.next → (h.insert node).nodes b = h.nodes b := by
    intro b hb
    exact Function.update_of_ne hb ..
  constructor
  · constructor
    · intro b n hb
      by_cases hbn : b = h.next
      · subst hbn
        obtain rfl : node = n := by simpa using hb
        rw [hlength, helems, List.length_nil]
      · rw [hnodes b hbn] at hb
        exact hI.length b n hb
    · rw [hsame]
      intro b e he
      rw [hnodes e (hI.lt_next he).ne]
      exact hI.live b e he
    · rw [hsame]
      exact hI.nodup
    · rw [hsame]
      exact hI.once
  · intro b n hb
    by_cases hbn : b = h.next
    · rw [hbn]
      exact Nat.lt_succ_self _
    · rw [hnodes b hbn] at hb
      exact Nat.lt_succ_of_lt (hI.bounded b n hb)
  · intro b n hb
    by_cases hbn : b = h.next
    · subst hbn
      obtain rfl : node = n := by simpa using hb
      rw [hlength]
      decide
    · rw [hnodes b hbn] at hb
      exact hI.short b n hb
  · rw [hsame]
    exact hI.after
  · rw [hsame]
    intro b e he
    rw [hnodes e (hI.lt_next he).ne]
    exact hI.allocated b e he

/-- A value that is no element goes away. -/
lemma release (hI : Inv h) (hfree : ∀ b, a ∉ h.elemsOf b) : Inv (h.release a) := by
  have hnodes : ∀ b, b ≠ a → (h.release a).nodes b = h.nodes b := by
    intro b hb
    exact Function.update_of_ne hb ..
  have hsub : ∀ b, ∀ e ∈ (h.release a).elemsOf b, e ∈ h.elemsOf b ∧ e ≠ a := by
    intro b e he
    rw [Heap.elemsOf_release] at he
    have hb : b ≠ a := by
      rintro rfl
      simp at he
    rw [Function.update_of_ne hb] at he
    refine ⟨he, ?_⟩
    rintro rfl
    exact hfree b he
  have hsome : ∀ b n, (h.release a).nodes b = some n → h.nodes b = some n := by
    intro b n hb
    by_cases hba : b = a
    · subst hba
      simp [Heap.release] at hb
    · rwa [hnodes b hba] at hb
  constructor
  · constructor
    · intro b n hb
      exact hI.length b n (hsome b n hb)
    · intro b e he
      rw [hnodes e (hsub b e he).2]
      exact hI.live b e (hsub b e he).1
    · intro b
      by_cases hba : b = a
      · simp [hba, Heap.elemsOf_release]
      · rw [Heap.elemsOf_release, Function.update_of_ne hba]
        exact hI.nodup b
    · intro b c e hb hc
      exact hI.once b c e (hsub b e hb).1 (hsub c e hc).1
  · intro b n hb
    exact hI.bounded b n (hsome b n hb)
  · intro b n hb
    exact hI.short b n (hsome b n hb)
  · intro b e he
    exact hI.after b e (hsub b e he).1
  · intro b e he n hn
    exact hI.allocated b e (hsub b e he).1 n (hsome e n hn)

end Inv

/-- Nothing happens to the addresses that were given before. -/
structure Extends (h h' : Heap F) : Prop where
  next : h.next ≤ h'.next
  nodes : ∀ a < h.next, h'.nodes a = h.nodes a

namespace Extends

variable {h h' h'' : Heap F} {a : ℕ} {node : Node F}

lemma refl (h : Heap F) : Extends h h := ⟨le_rfl, fun _ _ => rfl⟩

lemma trans (hh : Extends h h') (hh' : Extends h' h'') : Extends h h'' := by
  refine ⟨hh.next.trans hh'.next, ?_⟩
  intro a ha
  rw [hh'.nodes a (ha.trans_le hh.next), hh.nodes a ha]

lemma insert (h : Heap F) (node : Node F) : Extends h (h.insert node) := by
  refine ⟨Nat.le_succ _, ?_⟩
  intro a ha
  exact Function.update_of_ne ha.ne ..

lemma write (hh : Extends h h') (ha : h.next ≤ a) (node : Node F) :
    Extends h (h'.write a node) := by
  refine ⟨hh.next, ?_⟩
  intro b hb
  rw [← hh.nodes b hb]
  exact Function.update_of_ne (hb.trans_le ha).ne ..

lemma elemsOf (hh : Extends h h') (ha : a < h.next) : h'.elemsOf a = h.elemsOf a := by
  rw [Heap.elemsOf, Heap.elemsOf, hh.nodes a ha]

lemma node_eq (hh : Extends h h') (hI : Inv h) (ha : h.nodes a = some node) :
    h'.nodes a = some node := by
  rw [hh.nodes a (hI.bounded a node ha), ha]

/-- What belonged to no array before does not belong to a new one. -/
lemma unowned (hh : Extends h h') (hI' : Inv h') (ha : a < h.next) (hfree : ∀ b, a ∉ h.elemsOf b) :
    ∀ b, a ∉ h'.elemsOf b := by
  intro b hb
  have hlt : b < h.next := (hI'.after b a hb).trans ha
  rw [hh.elemsOf hlt] at hb
  exact hfree b hb

lemma unowned_next (hh : Extends h h') (hI : Inv h) (hI' : Inv h') :
    ∀ b, h.next ∉ h'.elemsOf b := by
  intro b hb
  have hlt : b < h.next := hI'.after b _ hb
  rw [hh.elemsOf hlt] at hb
  exact absurd (hI.lt_next hb) (lt_irrefl _)

end Extends

/-! ## Values without elements -/

section empty

variable {h : Heap F} {a : ℕ} {node : Node F}

lemma flexvalFreeArray_eq (fuel : ℕ) (ha : h.nodes a = some node) (hlength : node.length = 0) :
    flexvalFreeArray (fuel + 1) h a = .ok (h.write a { node with data := none }) := by
  have hread := Heap.read_eq ha
  have hmodify := Heap.modify_eq ha fun node => { node with data := none }
  simp only [flexvalFreeArray, freeArrayEntry, if_true, bind, Except.bind, hread, hlength,
    freeElems, hmodify]

lemma flexvalSetString_eq (fuel : ℕ) (ha : h.nodes a = some node) (hlength : node.length = 0)
    (s : CStr) : flexvalSetString D (fuel + 1) h a s =
      .ok (h.write a (Node.setText D s { node with data := none })) := by
  have hmodify := Heap.modify_eq (Heap.write_nodes h a { node with data := none })
    (Node.setText D s)
  rw [Heap.write_write] at hmodify
  simp only [flexvalSetString, flexvalFreeArray_eq fuel ha hlength, bind, Except.bind, hmodify]

lemma flexvalSetInt_eq (fuel : ℕ) (ha : h.nodes a = some node) (hlength : node.length = 0)
    (x : ℤ) : flexvalSetInt D (fuel + 1) h a x =
      .ok (h.write a (Node.setLong D x { node with data := none })) := by
  have hmodify := Heap.modify_eq (Heap.write_nodes h a { node with data := none })
    (Node.setLong D x)
  rw [Heap.write_write] at hmodify
  simp only [flexvalSetInt, flexvalFreeArray_eq fuel ha hlength, bind, Except.bind, hmodify]

lemma flexvalSetFloat_eq (fuel : ℕ) (ha : h.nodes a = some node) (hlength : node.length = 0)
    (x : F) : flexvalSetFloat D (fuel + 1) h a x =
      .ok (h.write a (Node.setReal D x { node with data := none })) := by
  have hmodify := Heap.modify_eq (Heap.write_nodes h a { node with data := none })
    (Node.setReal D x)
  rw [Heap.write_write] at hmodify
  simp only [flexvalSetFloat, flexvalFreeArray_eq fuel ha hlength, bind, Except.bind, hmodify]

lemma flexvalFree_eq (fuel : ℕ) (ha : h.nodes a = some node) (hlength : node.length = 0) :
    flexvalFree (fuel + 1) h a = .ok (if node.allocated then
      (h.write a { node with pchar := none, data := none }).release a
      else h.write a { node with pchar := none, data := none }) := by
  have hmodify := Heap.modify_eq ha fun node => { node with pchar := none }
  have hfree := flexvalFreeArray_eq fuel (Heap.write_nodes h a { node with pchar := none }) hlength
  rw [Heap.write_write] at hfree
  have hread := Heap.read_eq (Heap.write_nodes h a { node with pchar := none, data := none })
  simp only [flexvalFree, hmodify, hfree, hread, bind, Except.bind, pure, Except.pure]

variable (s : CStr) (x : ℤ) (y : F) (node)

@[simp] lemma setText_length : (Node.setText D s node).length = node.length := by
  unfold Node.setText
  dsimp only
  split_ifs <;> rfl

@[simp] lemma setText_data : (Node.setText D s node).data = node.data := by
  unfold Node.setText
  dsimp only
  split_ifs <;> rfl

@[simp] lemma setText_allocated : (Node.setText D s node).allocated = node.allocated := by
  unfold Node.setText
  dsimp only
  split_ifs <;> rfl

/-- A new value, as `flexval_create` leaves it. -/
def fresh (allocated : Bool) : Node F :=
  { Node.setText D [] ⟨0, D.ofLong 0, none, .undefined, 0, none, allocated⟩ with
    type := .undefined }

lemma length_fresh (allocated : Bool) : (fresh D allocated).length = 0 := setText_length D _ _

lemma allocated_fresh (allocated : Bool) : (fresh D allocated).allocated = allocated :=
  setText_allocated D _ _

lemma flexvalCreate_eq (fuel : ℕ) (h : Heap F) (allocated : Bool) :
    flexvalCreate D (fuel + 1) h allocated = .ok (h.insert (fresh D allocated), h.next) := by
  have hset := flexvalSetString_eq D fuel (Heap.insert_nodes h
    ⟨0, D.ofLong 0, none, .undefined, 0, none, allocated⟩) rfl []
  rw [Heap.insert_write] at hset
  have hmodify := Heap.modify_eq (Heap.insert_nodes h
    (Node.setText D [] ⟨0, D.ofLong 0, none, .undefined, 0, none, allocated⟩))
    fun node => { node with type := .undefined }
  rw [Heap.insert_write] at hmodify
  simp only [flexvalCreate, hset, hmodify, bind, Except.bind, pure, Except.pure]
  rfl

end empty

/-! ## Copies -/

/-- The values at `qs` are new and belong to no array. -/
structure Copied (h h' : Heap F) (qs : List ℕ) : Prop where
  inv : Inv h'
  extends_ : Extends h h'
  new : ∀ q ∈ qs, h.next ≤ q
  live : ∀ q ∈ qs, ∃ node, h'.nodes q = some node ∧ node.allocated = true
  nodup : qs.Nodup
  unowned : ∀ q ∈ qs, ∀ b, q ∉ h'.elemsOf b

lemma Copied.nil {h : Heap F} (hI : Inv h) : Copied h h [] where
  inv := hI
  extends_ := Extends.refl h
  new := by simp
  live := by simp
  nodup := List.nodup_nil
  unowned := by simp

lemma Copied.single {h h' : Heap F} {node : Node F} (hI : Inv h) (hI' : Inv h')
    (hext : Extends h h') (hnode : h'.nodes h.next = some node) (halloc : node.allocated = true) :
    Copied h h' [h.next] where
  inv := hI'
  extends_ := hext
  new := by simp
  live := by
    intro q hq
    obtain rfl := List.mem_singleton.1 hq
    exact ⟨node, hnode, halloc⟩
  nodup := by simp
  unowned := by
    intro q hq
    obtain rfl := List.mem_singleton.1 hq
    exact hext.unowned_next hI hI'

lemma Copied.cons {h h₁ h₂ : Heap F} {q : ℕ} {qs : List ℕ} (hq : Copied h h₁ [q])
    (hqs : Copied h₁ h₂ qs) : Copied h h₂ (q :: qs) := by
  obtain ⟨node, hnode, halloc⟩ := hq.live q (List.mem_singleton_self q)
  have hlt : q < h₁.next := hq.inv.bounded q node hnode
  have hfree := hqs.extends_.unowned hqs.inv hlt (hq.unowned q (List.mem_singleton_self q))
  constructor
  · exact hqs.inv
  · exact hq.extends_.trans hqs.extends_
  · intro p hp
    obtain rfl | hp := List.mem_cons.1 hp
    · exact hq.new p (List.mem_singleton_self p)
    · exact hq.extends_.next.trans (hqs.new p hp)
  · intro p hp
    obtain rfl | hp := List.mem_cons.1 hp
    · exact ⟨node, hqs.extends_.node_eq hq.inv hnode, halloc⟩
    · exact hqs.live p hp
  · rw [List.nodup_cons]
    exact ⟨fun hmem => absurd (hqs.new q hmem) (not_le.2 hlt), hqs.nodup⟩
  · intro p hp
    obtain rfl | hp := List.mem_cons.1 hp
    · exact hfree
    · exact hqs.unowned p hp

/-- The copies of the elements from an index on, if every one of them is copied. -/
lemma dupElems_copied {dup : Heap F → ℕ → Except Fault (Heap F × ℕ)} {h₀ : Heap F} {a : ℕ}
    {node : Node F} (hI₀ : Inv h₀) (ha : h₀.nodes a = some node)
    (hdup : ∀ h, Inv h → Extends h₀ h → ∀ e ∈ node.elems, ∃ h' q,
      dup h e = .ok (h', q) ∧ Copied h h' [q])
    (n i : ℕ) (hn : i + n = node.elems.length) {h : Heap F} (hI : Inv h) (hext : Extends h₀ h) :
    ∃ h' qs, dupElems dup a n i h = .ok (h', qs) ∧ Copied h h' qs ∧ qs.length = n := by
  induction n generalizing i h with
  | zero => exact ⟨h, [], rfl, .nil hI, rfl⟩
  | succ n ih =>
    have hlt : i < node.elems.length := by omega
    have hread := Heap.read_eq (hext.node_eq hI₀ ha)
    have helem : node.elem i = .ok node.elems[i] := by
      rw [Node.elem, List.getElem?_eq_getElem hlt]
    obtain ⟨h₁, q, hq, hcopied⟩ := hdup h hI hext node.elems[i] (List.getElem_mem hlt)
    obtain ⟨h₂, qs, hqs, hcopied', hlength⟩ := ih (i + 1) (by omega) hcopied.inv
      (hext.trans hcopied.extends_)
    refine ⟨h₂, q :: qs, ?_, hcopied.cons hcopied', by rw [List.length_cons, hlength]⟩
    simp only [dupElems, hread, helem, hq, hqs, bind, Except.bind, pure, Except.pure]

/-- The copy of a value, before its elements are copied. -/
def copyOf (node : Node F) : Node F :=
  { (match node.pchar with
      | none => fresh D true
      | some s => Node.setText D s { fresh D true with data := none }) with
    integer := node.integer, real := node.real, length := 0, data := none, type := node.type }

lemma allocated_copyOf (node : Node F) : (copyOf D node).allocated = true := by
  unfold copyOf
  cases node.pchar <;> simp [fresh]

/-- The first part of `flexval_dup`. -/
lemma flexvalDup_eq (fuel : ℕ) {h : Heap F} {a : ℕ} {node : Node F} (ha : h.nodes a = some node) :
    flexvalDup D (fuel + 1) h a =
      if node.type = .array then
        (mallocPointers (node.length + 1)).bind fun _ =>
          (dupElems (flexvalDup D fuel) a node.length 0 (h.insert (copyOf D node))).bind fun r =>
            (r.1.modify h.next fun copy => { copy with
              length := node.length, data := some r.2 }).bind fun h' => .ok (h', h.next)
      else .ok (h.insert (copyOf D node), h.next) := by
  have hread := Heap.read_eq ha
  have hcreate := flexvalCreate_eq D fuel h true
  have hset := flexvalSetString_eq D fuel (Heap.insert_nodes h (fresh D true)) (by simp [fresh])
  have hmodify := fun n : Node F => Heap.modify_eq (Heap.insert_nodes h n)
    fun copy => { copy with
      integer := node.integer, real := node.real, length := 0, data := none, type := node.type }
  simp only [Heap.insert_write] at hset hmodify
  unfold flexvalDup copyOf
  cases hpchar : node.pchar with
  | none => simp only [hread, hpchar, hcreate, hmodify, bind, Except.bind, pure, Except.pure]
  | some s =>
    simp only [hread, hpchar, hcreate, hset, hmodify, bind, Except.bind, pure, Except.pure]

/-- A value and everything in it is copied. Elements stand after their arrays, so that the number of
addresses bounds the depth. -/
theorem flexvalDup_copied (fuel : ℕ) {h₀ h : Heap F} {a : ℕ} {node : Node F} (hI₀ : Inv h₀)
    (ha : h₀.nodes a = some node) (hI : Inv h) (hext : Extends h₀ h) (hfuel : h₀.next ≤ fuel + a) :
    ∃ h' p, flexvalDup D fuel h a = .ok (h', p) ∧ Copied h h' [p] := by
  induction fuel generalizing h a node with
  | zero =>
    have := hI₀.bounded a node ha
    omega
  | succ fuel ih =>
    have hinsert : Inv (h.insert (copyOf D node)) := hI.insert rfl rfl
    rw [flexvalDup_eq D fuel (hext.node_eq hI₀ ha)]
    split_ifs with harray
    · have helems : h₀.elemsOf a = node.elems := Heap.elemsOf_eq ha
      have hdup : ∀ h, Inv h → Extends h₀ h → ∀ e ∈ node.elems, ∃ h' q,
          flexvalDup D fuel h e = .ok (h', q) ∧ Copied h h' [q] := by
        intro h hI hext e he
        rw [← helems] at he
        obtain ⟨elem, helem⟩ := Option.isSome_iff_exists.1 (hI₀.live a e he)
        have hafter := hI₀.after a e he
        exact ih helem hI hext (by omega)
      have hlength := hI₀.length a node ha
      have hshort := hI₀.short a node ha
      obtain ⟨h', qs, hqs, hcopied, hcount⟩ := dupElems_copied hI₀ ha hdup node.length 0
        (by omega) hinsert (hext.trans (.insert h _))
      have hp : h'.nodes h.next = some (copyOf D node) :=
        hcopied.extends_.node_eq hinsert (Heap.insert_nodes h _)
      have hext' : Extends h h' := (Extends.insert h _).trans hcopied.extends_
      have hnew : Inv (h'.write h.next { copyOf D node with
          length := node.length, data := some qs }) :=
        hcopied.inv.write hp rfl hcount.symm hshort hcopied.new hcopied.live hcopied.nodup
          fun q hq b _ => hcopied.unowned q hq b
      refine ⟨_, h.next, ?_, .single hI hnew (hext'.write le_rfl _) (Heap.write_nodes _ _ _)
        (allocated_copyOf D node)⟩
      rw [mallocPointers, if_pos hshort, hqs]
      simp only [Except.bind, Heap.modify_eq hp]
    · exact ⟨_, h.next, rfl, .single hI hinsert (.insert h _) (Heap.insert_nodes h _)
        (allocated_copyOf D node)⟩

/-- The values that `flexval_set_array` is given are copied one by one. -/
lemma dupAll_copied {fuel : ℕ} {h₀ h : Heap F} (hI₀ : Inv h₀) (hI : Inv h) (hext : Extends h₀ h)
    (hfuel : h₀.next ≤ fuel) {data : List ℕ} (hdata : ∀ e ∈ data, (h₀.nodes e).isSome) :
    ∃ h' qs, dupAll D fuel h data = .ok (h', qs) ∧ Copied h h' qs ∧ qs.length = data.length := by
  induction data generalizing h with
  | nil => exact ⟨h, [], rfl, .nil hI, rfl⟩
  | cons e data ih =>
    obtain ⟨he, hdata⟩ := List.forall_mem_cons.1 hdata
    obtain ⟨node, hnode⟩ := Option.isSome_iff_exists.1 he
    obtain ⟨h₁, q, hq, hcopied⟩ := flexvalDup_copied D fuel hI₀ hnode hI hext (by omega)
    obtain ⟨h₂, qs, hqs, hcopied', hlength⟩ := ih hcopied.inv (hext.trans hcopied.extends_) hdata
    refine ⟨h₂, q :: qs, ?_, hcopied.cons hcopied', by rw [List.length_cons, hlength]; rfl⟩
    simp only [dupAll, hq, hqs, bind, Except.bind, pure, Except.pure]

end WebTester.FlexHeap
