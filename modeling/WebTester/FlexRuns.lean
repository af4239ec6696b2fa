import WebTester.FlexHeap
import WebTester.Hive

/-!
# Runs over flexible values

A client works on values that it has not freed: variables of its own, values that were allocated or
copied for it, and elements of arrays. Every operation that replaces the contents of a value
releases its elements.
-/
namespace WebTester.FlexHeap
open CString Flexval

variable {F : Type} (D : Doubles F)

/-- The heap, and the values that `flexval_free` was called for. -/
structure State (F : Type) where
  heap : Heap F
  freed : List ℕ

def initial : State F := ⟨⟨fun _ => none, 0⟩, []⟩

inductive Op (F : Type)
  | alloc
  | create
  | setString (a : ℕ) (s : CStr)
  | setInt (a : ℕ) (x : ℤ)
  | setFloat (a : ℕ) (x : F)
  | setArray (a : ℕ) (data : List ℕ)
  | append (a element : ℕ)
  | appendInt (a : ℕ) (x : ℤ)
  | appendFloat (a : ℕ) (x : F)
  | appendString (a : ℕ) (s : CStr)
  | appendArray (a : ℕ) (data : List ℕ)
  | dup (a : ℕ)
  | getArrayElem (a : ℕ) (index : ℤ)
  | free (a : ℕ)

namespace Op

/-- One operation, with the pointer that it returns. The depth of the values is below the number of
addresses. -/
def exec (s : State F) (op : Op F) : Except Fault (State F × Option ℕ) :=
  let fuel := s.heap.next + 2
  let void (r : Except Fault (Heap F)) := r.map fun h => ({ s with heap := h }, none)
  let pointer (r : Except Fault (Heap F × ℕ)) := r.map fun r => ({ s with heap := r.1 }, some r.2)
  match op with
  | alloc => pointer (flexvalCreate D fuel s.heap true)
  | create => pointer (flexvalCreate D fuel s.heap false)
  | setString a text => void (flexvalSetString D fuel s.heap a text)
  | setInt a x => void (flexvalSetInt D fuel s.heap a x)
  | setFloat a x => void (flexvalSetFloat D fuel s.heap a x)
  | setArray a data => void (flexvalSetArray D fuel s.heap a data)
  | append a element => void (flexvalArrayAppend D fuel s.heap a element)
  | appendInt a x => void (flexvalArrayAppendInt D fuel s.heap a x)
  | appendFloat a x => void (flexvalArrayAppendFloat D fuel s.heap a x)
  | appendString a text => void (flexvalArrayAppendString D fuel s.heap a text)
  | appendArray a data => void (flexvalArrayAppendArray D fuel s.heap a data)
  | dup a => pointer (flexvalDup D fuel s.heap a)
  | getArrayElem a index => (flexvalGetArrayElem s.heap a index).map fun r => (s, r)
  | free a => (flexvalFree fuel s.heap a).map fun h => (⟨h, a :: s.freed⟩, none)

/-- The values that an operation is given. -/
def args : Op F → List ℕ
  | alloc | create => []
  | setString a _ | setInt a _ | setFloat a _ => [a]
  | setArray a data | appendArray a data => a :: data
  | append a element => [a, element]
  | appendInt a _ | appendFloat a _ | appendString a _ => [a]
  | dup a | getArrayElem a _ | free a => [a]

/-- The values are there, and none of them was freed. -/
def Legal (s : State F) (op : Op F) : Prop :=
  ∀ a ∈ op.args, (s.heap.nodes a).isSome ∧ a ∉ s.freed

/-- Nothing with elements is set, freed or appended as a list, no element is freed, and no array
gets more pointers than an `int` can count. -/
def Careful (h : Heap F) : Op F → Prop
  | setString a _ | setInt a _ | setFloat a _ => h.elemsOf a = []
  | setArray a data => h.elemsOf a = [] ∧ data.length + 1 < 2 ^ 31
  | append a _ | appendInt a _ | appendFloat a _ | appendString a _ =>
    (h.elemsOf a).length + 2 < 2 ^ 31
  | appendArray a data => data = [] ∧ (h.elemsOf a).length + 2 < 2 ^ 31
  | free a => h.elemsOf a = [] ∧ ∀ b, a ∉ h.elemsOf b
  | alloc | create | dup _ | getArrayElem _ _ => True

end Op

/-- No legal operation of the run fails, and every state is well formed. -/
def Safe : State F → List (Op F) → Prop
  | s, [] => WellFormed s.heap
  | s, op :: ops => WellFormed s.heap ∧
      (op.Legal s → ∃ t r, op.exec D s = .ok (t, r) ∧ Safe t ops)

/-- Every legal operation of the run is careful. -/
def CarefulRun : State F → List (Op F) → Prop
  | _, [] => True
  | s, op :: ops => op.Legal s → op.Careful s.heap ∧
      ∀ t r, op.exec D s = .ok (t, r) → CarefulRun t ops

/-! ## One operation -/

section operations

variable {D} {h : Heap F} {a : ℕ} {node : Node F} (fuel : ℕ)

lemma Inv.length_eq_zero (hI : Inv h) (ha : h.nodes a = some node) (hempty : h.elemsOf a = []) :
    node.length = 0 := by
  rw [Heap.elemsOf_eq ha] at hempty
  rw [hI.length a node ha, hempty, List.length_nil]

lemma setString_inv (hI : Inv h) (ha : h.nodes a = some node) (hempty : h.elemsOf a = [])
    (s : CStr) : ∃ h', flexvalSetString D (fuel + 1) h a s = .ok h' ∧ Inv h' := by
  have hlength := hI.length_eq_zero ha hempty
  refine ⟨_, flexvalSetString_eq D fuel ha hlength s, hI.write_empty ha ?_ ?_ ?_⟩
  · rw [setText_allocated]
  · rw [setText_length]
    exact hlength
  · rw [Node.elems, setText_data]
    rfl

lemma setInt_inv (hI : Inv h) (ha : h.nodes a = some node) (hempty : h.elemsOf a = []) (x : ℤ) :
    ∃ h', flexvalSetInt D (fuel + 1) h a x = .ok h' ∧ Inv h' := by
  have hlength := hI.length_eq_zero ha hempty
  exact ⟨_, flexvalSetInt_eq D fuel ha hlength x, hI.write_empty ha rfl hlength rfl⟩

lemma setFloat_inv (hI : Inv h) (ha : h.nodes a = some node) (hempty : h.elemsOf a = []) (x : F) :
    ∃ h', flexvalSetFloat D (fuel + 1) h a x = .ok h' ∧ Inv h' := by
  have hlength := hI.length_eq_zero ha hempty
  exact ⟨_, flexvalSetFloat_eq D fuel ha hlength x, hI.write_empty ha rfl hlength rfl⟩

lemma setArray_inv (hI : Inv h) (ha : h.nodes a = some node) (hempty : h.elemsOf a = [])
    {data : List ℕ} (hdata : ∀ e ∈ data, (h.nodes e).isSome)
    (hcount : data.length + 1 < 2 ^ 31) (hfuel : h.next ≤ fuel + 1) :
    ∃ h', flexvalSetArray D (fuel + 1) h a data = .ok h' ∧ Inv h' := by
  have hlength := hI.length_eq_zero ha hempty
  have hset := flexvalSetString_eq D fuel ha hlength []
  have hmodify := Heap.modify_eq (Heap.write_nodes h a (Node.setText D []
    { node with data := none })) fun node => { node with pchar := some "Array".toList }
  rw [Heap.write_write] at hmodify
  generalize hcleared : { Node.setText D [] { node with data := none } with
    pchar := some "Array".toList } = cleared at hmodify
  have hI' : Inv (h.write a cleared) := by
    refine hI.write_empty ha ?_ ?_ ?_
    · rw [← hcleared]
      exact setText_allocated D _ _
    · rw [← hcleared]
      exact (setText_length D _ _).trans hlength
    · rw [← hcleared, Node.elems]
      dsimp only
      rw [setText_data]
      rfl
  have hlive : ∀ e ∈ data, ((h.write a cleared).nodes e).isSome :=
    fun e he => Heap.isSome_write (hdata e he) a cleared
  obtain ⟨h', qs, hqs, hcopied, hqlength⟩ :=
    dupAll_copied D hI' hI' (.refl _) (show (h.write a cleared).next ≤ fuel + 1 from hfuel) hlive
  have ha' := hcopied.extends_.node_eq hI' (Heap.write_nodes h a cleared)
  have hafter : ∀ q ∈ qs, a < q := by
    intro q hq
    exact (hI'.bounded a cleared (Heap.write_nodes h a cleared)).trans_le (hcopied.new q hq)
  refine ⟨h'.write a { cleared with
    length := data.length, data := some qs, type := .array }, ?_, ?_⟩
  · simp only [flexvalSetArray, hset, hmodify, mallocPointers, if_pos hcount, hqs, bind,
      Except.bind, Heap.modify_eq ha']
  · exact hcopied.inv.write ha' rfl hqlength.symm hcount hafter hcopied.live hcopied.nodup
      fun q hq b _ => hcopied.unowned q hq b

/-- An array has got one new element, and the other values are as they were. -/
structure Appended (h h' : Heap F) (a : ℕ) : Prop where
  inv : Inv h'
  next : h.next ≤ h'.next
  nodes : ∀ b < h.next, b ≠ a → h'.nodes b = h.nodes b
  elems : ∀ e ∈ h'.elemsOf a, e ∈ h.elemsOf a ∨ h.next ≤ e

lemma append_inv (hI : Inv h) (ha : h.nodes a = some node) {element : ℕ}
    (helement : (h.nodes element).isSome) (hcount : (h.elemsOf a).length + 2 < 2 ^ 31)
    (hfuel : h.next ≤ fuel) :
    ∃ h', flexvalArrayAppend D fuel h a element = .ok h' ∧ Appended h h' a := by
  have hmodify := Heap.modify_eq ha fun node => { node with
    integer := 0, real := D.ofLong 0, pchar := some "Array".toList, type := .array }
  generalize hreset : ({ node with
    integer := 0, real := D.ofLong 0, pchar := some "Array".toList, type := .array } : Node F) =
      reset at hmodify
  have hlength : reset.length = node.length := by rw [← hreset]
  have helems : reset.elems = node.elems := by
    rw [← hreset]
    rfl
  have hself : h.elemsOf a = reset.elems := (Heap.elemsOf_eq ha).trans helems.symm
  have hI' : Inv (h.write a reset) := by
    refine hI.write_same ha ?_ hlength helems
    rw [← hreset]
  obtain ⟨n, hn⟩ := Option.isSome_iff_exists.1 (Heap.isSome_write helement a reset)
  obtain ⟨h', p, hp, hcopied⟩ := flexvalDup_copied D fuel hI' hn hI' (.refl _)
    (show (h.write a reset).next ≤ fuel + element from Nat.le_add_right_of_le hfuel)
  have hread := hcopied.extends_.node_eq hI' (Heap.write_nodes h a reset)
  have hsize : reset.length = reset.elems.length := hcopied.inv.length a reset hread
  have htake : reset.elems.take reset.length ++ [p] = reset.elems ++ [p] := by
    rw [hsize, List.take_length]
  have hroom : reset.length + 2 < 2 ^ 31 := by
    rw [hsize, ← hself]
    exact hcount
  have hnew : h.next ≤ p := hcopied.new p (List.mem_singleton_self p)
  have hpushed := hcopied.inv.push hread (hself ▸ hcount)
    ((hI.bounded a node ha).trans_le hnew) (hcopied.live p (List.mem_singleton_self p))
    (hcopied.unowned p (List.mem_singleton_self p))
  refine ⟨_, ?_, hpushed, hcopied.extends_.next, ?_, ?_⟩
  · simp only [flexvalArrayAppend, hmodify, hp, bind, Except.bind, Heap.read_eq hread,
      mallocPointers, if_pos hroom, if_pos hsize.le, htake]
    rfl
  · intro b hb hba
    rw [Heap.write_nodes_of_ne hba, hcopied.extends_.nodes b hb, Heap.write_nodes_of_ne hba]
  · intro e he
    rw [Heap.elemsOf_write_self] at he
    rw [hself]
    obtain he | he := List.mem_append.1 (show e ∈ reset.elems ++ [p] from he)
    · exact .inl he
    · rw [List.mem_singleton.1 he]
      exact .inr hnew

/-- A variable is set, its copy is appended, and the variable goes away. -/
lemma appendVariable_inv (hI : Inv h) (ha : h.nodes a = some node)
    (hcount : (h.elemsOf a).length + 2 < 2 ^ 31) (hfuel : h.next < fuel + 1)
    (set : Heap F → ℕ → Except Fault (Heap F)) {n : Node F}
    (hset : set (h.insert (fresh D false)) h.next = .ok (h.insert n)) (hlength : n.length = 0)
    (helems : n.elems = []) (halloc : n.allocated = false) :
    ∃ h', appendVariable D (fuel + 1) h set a = .ok h' ∧ Inv h' := by
  have hI' : Inv (h.insert n) := hI.insert hlength helems
  have hlt : a < h.next := hI.bounded a node ha
  have hext := Extends.insert h n
  have hcount' : ((h.insert n).elemsOf a).length + 2 < 2 ^ 31 := by
    rw [hext.elemsOf hlt]
    exact hcount
  have hdata : ((h.insert n).nodes h.next).isSome := by
    rw [Heap.insert_nodes]
    rfl
  obtain ⟨h', happ, happended⟩ :=
    append_inv (D := D) (fuel + 1) hI' (hext.node_eq hI ha) hdata hcount'
    (show (h.insert n).next ≤ fuel + 1 from hfuel)
  have hn : h'.nodes h.next = some n := by
    rw [happended.nodes h.next (Nat.lt_succ_self _) hlt.ne', Heap.insert_nodes]
  have hfree := flexvalFree_eq fuel hn hlength
  have hnot : ¬n.allocated = true := by
    rw [halloc]
    exact Bool.false_ne_true
  rw [if_neg hnot] at hfree
  have hcleared : Inv (h'.write h.next { n with pchar := none, data := none }) :=
    happended.inv.write_empty hn rfl hlength rfl
  have hunowned :
      ∀ b, h.next ∉ (h'.write h.next { n with pchar := none, data := none }).elemsOf b := by
    intro b hb
    have hblt : b < h.next := hcleared.after b _ hb
    rw [Heap.elemsOf_write_of_ne hblt.ne] at hb
    have hold : h.next ∈ (h.insert n).elemsOf b := by
      by_cases hba : b = a
      · subst hba
        obtain hmem | hle := happended.elems _ hb
        · exact hmem
        · exact absurd hle (Nat.not_succ_le_self _)
      · rwa [Heap.elemsOf, happended.nodes b (Nat.lt_succ_of_lt hblt) hba] at hb
    rw [hext.elemsOf hblt] at hold
    exact absurd (hI.lt_next hold) (lt_irrefl _)
  refine ⟨_, ?_, hcleared.release hunowned⟩
  simp only [appendVariable, flexvalCreate_eq, hset, happ, hfree, bind, Except.bind, pure,
    Except.pure]

lemma free_inv (hI : Inv h) (ha : h.nodes a = some node) (hempty : h.elemsOf a = [])
    (hunowned : ∀ b, a ∉ h.elemsOf b) : ∃ h', flexvalFree (fuel + 1) h a = .ok h' ∧ Inv h' := by
  have hlength := hI.length_eq_zero ha hempty
  have hcleared : Inv (h.write a { node with pchar := none, data := none }) :=
    hI.write_empty ha rfl hlength rfl
  refine ⟨_, flexvalFree_eq fuel ha hlength, ?_⟩
  split_ifs
  · apply hcleared.release
    intro b hb
    by_cases hba : b = a
    · rw [hba, Heap.elemsOf_write_self] at hb
      cases hb
    · rw [Heap.elemsOf_write_of_ne hba] at hb
      exact hunowned b hb
  · exact hcleared

lemma getArrayElem_eq (hI : Inv h) (ha : h.nodes a = some node) (index : ℤ) :
    ∃ r, flexvalGetArrayElem h a index = .ok r := by
  have hlength := hI.length a node ha
  by_cases hindex : 0 ≤ index ∧ index < node.length
  · have hlt : index.toNat < node.elems.length := by omega
    have helem : node.elem index.toNat = .ok node.elems[index.toNat] := by
      rw [Node.elem, List.getElem?_eq_getElem hlt]
    refine ⟨some node.elems[index.toNat], ?_⟩
    simp only [flexvalGetArrayElem, Heap.read_eq ha, if_pos hindex, helem, bind, Except.bind, pure,
      Except.pure]
  · refine ⟨none, ?_⟩
    simp only [flexvalGetArrayElem, Heap.read_eq ha, if_neg hindex, bind, Except.bind, pure,
      Except.pure]

end operations

/-- Setting a new variable to an empty array. -/
lemma flexvalSetArray_fresh (fuel : ℕ) (h : Heap F) :
    flexvalSetArray D (fuel + 1) (h.insert (fresh D false)) h.next [] =
      .ok (h.insert { Node.setText D [] { fresh D false with data := none } with
        pchar := some "Array".toList, length := 0, data := some [], type := .array }) := by
  have hset := flexvalSetString_eq D fuel (Heap.insert_nodes h (fresh D false))
    (length_fresh D false) []
  have hmodify := fun (n : Node F) f => Heap.modify_eq (Heap.insert_nodes h n) f
  simp only [Heap.insert_write] at hset hmodify
  simp only [flexvalSetArray, hset, hmodify, dupAll, bind, Except.bind]
  rfl

/-- A careful operation on values that are there succeeds and keeps the heap in order. -/
theorem step_inv {s : State F} (hI : Inv s.heap) {op : Op F} (hlegal : op.Legal s)
    (hcareful : op.Careful s.heap) :
    ∃ t r, op.exec D s = .ok (t, r) ∧ Inv t.heap := by
  have hnode : ∀ a ∈ op.args, ∃ node, s.heap.nodes a = some node := by
    intro a ha
    exact Option.isSome_iff_exists.1 (hlegal a ha).1
  have hcreate : ∀ b, Inv (s.heap.insert (fresh D b)) := fun b => hI.insert rfl rfl
  cases op with
  | alloc => exact ⟨_, _, by rw [Op.exec, flexvalCreate_eq]; rfl, hcreate true⟩
  | create => exact ⟨_, _, by rw [Op.exec, flexvalCreate_eq]; rfl, hcreate false⟩
  | setString a text =>
    obtain ⟨node, ha⟩ := hnode a (by simp [Op.args])
    obtain ⟨h', hset, hI'⟩ := setString_inv (D := D) (s.heap.next + 1) hI ha hcareful text
    exact ⟨_, _, by rw [Op.exec, hset]; rfl, hI'⟩
  | setInt a x =>
    obtain ⟨node, ha⟩ := hnode a (by simp [Op.args])
    obtain ⟨h', hset, hI'⟩ := setInt_inv (D := D) (s.heap.next + 1) hI ha hcareful x
    exact ⟨_, _, by rw [Op.exec, hset]; rfl, hI'⟩
  | setFloat a x =>
    obtain ⟨node, ha⟩ := hnode a (by simp [Op.args])
    obtain ⟨h', hset, hI'⟩ := setFloat_inv (D := D) (s.heap.next + 1) hI ha hcareful x
    exact ⟨_, _, by rw [Op.exec, hset]; rfl, hI'⟩
  | setArray a data =>
    obtain ⟨node, ha⟩ := hnode a (by simp [Op.args])
    have hdata : ∀ e ∈ data, (s.heap.nodes e).isSome :=
      fun e he => (hlegal e (List.mem_cons_of_mem a he)).1
    obtain ⟨h', hset, hI'⟩ := setArray_inv (D := D) (s.heap.next + 1) hI ha hcareful.1 hdata
      hcareful.2 (by omega)
    exact ⟨_, _, by rw [Op.exec, hset]; rfl, hI'⟩
  | append a element =>
    obtain ⟨node, ha⟩ := hnode a (by simp [Op.args])
    have helement := (hlegal element (by simp [Op.args])).1
    obtain ⟨h', happend, happended⟩ := append_inv (D := D) (s.heap.next + 2) hI ha helement
      hcareful (by omega)
    exact ⟨_, _, by rw [Op.exec, happend]; rfl, happended.inv⟩
  | appendInt a x =>
    obtain ⟨node, ha⟩ := hnode a (by simp [Op.args])
    have hset := flexvalSetInt_eq D (s.heap.next + 1) (Heap.insert_nodes s.heap (fresh D false))
      (length_fresh D false) x
    rw [Heap.insert_write] at hset
    obtain ⟨h', happend, hI'⟩ := appendVariable_inv (s.heap.next + 1) hI ha hcareful (by omega)
      (fun h data => flexvalSetInt D (s.heap.next + 2) h data x) hset
      (length_fresh D false) rfl (allocated_fresh D false)
    exact ⟨_, _, by rw [Op.exec, flexvalArrayAppendInt, happend]; rfl, hI'⟩
  | appendFloat a x =>
    obtain ⟨node, ha⟩ := hnode a (by simp [Op.args])
    have hset := flexvalSetFloat_eq D (s.heap.next + 1) (Heap.insert_nodes s.heap (fresh D false))
      (length_fresh D false) x
    rw [Heap.insert_write] at hset
    obtain ⟨h', happend, hI'⟩ := appendVariable_inv (s.heap.next + 1) hI ha hcareful (by omega)
      (fun h data => flexvalSetFloat D (s.heap.next + 2) h data x) hset
      (length_fresh D false) rfl (allocated_fresh D false)
    exact ⟨_, _, by rw [Op.exec, flexvalArrayAppendFloat, happend]; rfl, hI'⟩
  | appendString a text =>
    obtain ⟨node, ha⟩ := hnode a (by simp [Op.args])
    have hset := flexvalSetString_eq D (s.heap.next + 1) (Heap.insert_nodes s.heap (fresh D false))
      (length_fresh D false) text
    rw [Heap.insert_write] at hset
    obtain ⟨h', happend, hI'⟩ := appendVariable_inv (s.heap.next + 1) hI ha hcareful (by omega)
      (fun h data => flexvalSetString D (s.heap.next + 2) h data text) hset
      (by rw [setText_length]; exact length_fresh D false) (by rw [Node.elems, setText_data]; rfl)
      (by rw [setText_allocated]; exact allocated_fresh D false)
    exact ⟨_, _, by rw [Op.exec, flexvalArrayAppendString, happend]; rfl, hI'⟩
  | appendArray a data =>
    obtain ⟨node, ha⟩ := hnode a (by simp [Op.args])
    obtain ⟨rfl, hcount⟩ := hcareful
    obtain ⟨h', happend, hI'⟩ := appendVariable_inv (s.heap.next + 1) hI ha hcount (by omega)
      (fun h data => flexvalSetArray D (s.heap.next + 2) h data [])
      (flexvalSetArray_fresh D (s.heap.next + 1) s.heap) rfl rfl
      ((setText_allocated D _ _).trans (allocated_fresh D false))
    exact ⟨_, _, by rw [Op.exec, flexvalArrayAppendArray, happend]; rfl, hI'⟩
  | dup a =>
    obtain ⟨node, ha⟩ := hnode a (by simp [Op.args])
    obtain ⟨h', p, hdup, hcopied⟩ := flexvalDup_copied D (s.heap.next + 2) hI ha hI (.refl _)
      (by omega)
    exact ⟨_, _, by rw [Op.exec, hdup]; rfl, hcopied.inv⟩
  | getArrayElem a index =>
    obtain ⟨node, ha⟩ := hnode a (by simp [Op.args])
    obtain ⟨r, hr⟩ := getArrayElem_eq hI ha index
    exact ⟨_, _, by rw [Op.exec, hr]; rfl, hI⟩
  | free a =>
    obtain ⟨node, ha⟩ := hnode a (by simp [Op.args])
    obtain ⟨h', hfree, hI'⟩ := free_inv (s.heap.next + 1) hI ha hcareful.1 hcareful.2
    exact ⟨_, _, by rw [Op.exec, hfree]; rfl, hI'⟩

/-- An element is read after it was released: an array with elements cannot be released. -/
theorem flexvalFreeArray_released {h : Heap F} {a : ℕ} (hI : Inv h) (ha : h.elemsOf a ≠ [])
    (fuel : ℕ) : flexvalFreeArray (fuel + 2) h a = .error .released := by
  cases hnode : h.nodes a with
  | none => simp [Heap.elemsOf, hnode] at ha
  | some node =>
    have helems := Heap.elemsOf_eq hnode
    obtain ⟨e, rest, hrest⟩ := List.exists_cons_of_ne_nil ha
    have he : e ∈ h.elemsOf a := by
      rw [hrest]
      exact List.mem_cons_self
    obtain ⟨elem, helem⟩ := Option.isSome_iff_exists.1 (hI.live a e he)
    have halloc := hI.allocated a e he elem helem
    have hread := Heap.read_eq hnode
    have hlength : node.length = rest.length + 1 := by
      rw [hI.length a node hnode, ← helems, hrest, List.length_cons]
    have hfirst : node.elem 0 = .ok e := by
      rw [Node.elem, ← helems, hrest]
      rfl
    have hmodify := Heap.modify_eq helem fun node => { node with pchar := none }
    have hread' := fun n : Node F => Heap.read_eq (Heap.write_nodes h e n)
    have hgone : ∀ n : Node F, ((h.write e n).release e).read e = .error .released := by
      intro n
      simp [Heap.read, Heap.release]
    simp only [flexvalFreeArray, freeArrayEntry, if_true, hread, hlength, freeElems, hfirst,
      Nat.zero_add, Nat.one_ne_zero, if_false, hmodify, hread', halloc, hgone, bind, Except.bind]

/-! ## Runs -/

theorem safe_of_inv {s : State F} (hI : Inv s.heap) {ops : List (Op F)} (h : CarefulRun D s ops) :
    Safe D s ops := by
  induction ops generalizing s with
  | nil => exact hI.toWellFormed
  | cons op ops ih =>
    refine ⟨hI.toWellFormed, fun hlegal => ?_⟩
    obtain ⟨hcareful, hrest⟩ := h hlegal
    obtain ⟨t, r, hexec, hI'⟩ := step_inv D hI hlegal hcareful
    exact ⟨t, r, hexec, ih hI' (hrest t r hexec)⟩

lemma inv_initial : Inv (initial : State F).heap := by
  constructor
  · constructor
    · intro a node ha
      cases ha
    · intro a e he
      cases he
    · intro a
      exact List.nodup_nil
    · intro a b e he
      cases he
  · intro a node ha
    cases ha
  · intro a node ha
    cases ha
  · intro a e he
    cases he
  · intro a e he
    cases he

/-- A run whose operations are careful never fails, and its states are well formed. -/
theorem safe_of_carefulRun (ops : List (Op F)) (h : CarefulRun D initial ops) :
    Safe D initial ops :=
  safe_of_inv D inv_initial h

theorem safe_of_carefulRun_append :
    Safe Hive.noDoubles initial [.create, .appendInt 0 5, .getArrayElem 0 0, .dup 0] := by
  apply safe_of_carefulRun Hive.noDoubles [.create, .appendInt 0 5, .getArrayElem 0 0, .dup 0]
  refine fun _ => ⟨trivial, fun t r ht => fun _ => ⟨?_, fun t' r' _ => fun _ => ⟨trivial, ?_⟩⟩⟩
  · rw [Op.exec, flexvalCreate_eq] at ht
    obtain ⟨rfl, -⟩ := Prod.mk.inj (Except.ok.inj ht)
    show (Heap.elemsOf _ 0).length + 2 < 2 ^ 31
    decide
  · exact fun _ _ _ _ => ⟨trivial, fun _ _ _ => trivial⟩

/-- The only element of an array is read after `flexval_free` has released it. -/
theorem free_reads_released_element :
    ¬Safe Hive.noDoubles initial [.create, .appendInt 0 5, .free 0] := by
  have hcreate : ∃ s, Op.exec Hive.noDoubles initial .create = .ok (s, some 0) ∧
      (s.heap.nodes 0).isSome ∧ s.freed = [] ∧
      ∃ t, Op.exec Hive.noDoubles s (.appendInt 0 5) = .ok (t, none) ∧
        (t.heap.nodes 0).isSome ∧ t.freed = [] ∧
        Op.exec Hive.noDoubles t (.free 0) = .error .released :=
    ⟨_, rfl, rfl, rfl, _, rfl, rfl, rfl, rfl⟩
  obtain ⟨s, hs, hnode, hfreed, t, ht, hnode', hfreed', hfree⟩ := hcreate
  rintro ⟨-, h⟩
  obtain ⟨s', r, hs', -, h⟩ := h (by simp [Op.Legal, Op.args])
  obtain ⟨rfl, -⟩ := Prod.mk.inj (Except.ok.inj (hs.symm.trans hs'))
  obtain ⟨t', r, ht', -, h⟩ := h (by simp [Op.Legal, Op.args, hnode, hfreed])
  obtain ⟨rfl, -⟩ := Prod.mk.inj (Except.ok.inj (ht.symm.trans ht'))
  obtain ⟨u, r, hu, -⟩ := h (by simp [Op.Legal, Op.args, hnode', hfreed'])
  rw [hfree] at hu
  cases hu

end WebTester.FlexHeap
