import Mathlib.Data.Int.Notation
import WebTester.Linked

/-!
# The doubly linked list of the library

The nodes of one `dynastruc_t` are in a heap of their own; an address without a node can neither be
read nor written, and a function that tries has no result. The address that `malloc` gives is an
argument of the operation, none when there is no memory. A deleter sees only the data of a node and
is left out.
-/
namespace WebTester.Dynastruc
open Linked

variable {δ : Type}

/-- `dyna_item_t`. -/
structure Item (δ : Type) where
  data : δ
  tag : ℤ
  nextPtr : Option ℕ
  prevPtr : Option ℕ

/-- `dynastruc_t` with its nodes. -/
structure Dyna (δ : Type) where
  heap : ℕ → Option (Item δ)
  head : Option ℕ
  tail : Option ℕ
  count : ℤ

/-- What an operation answers: zero, minus one, or zero with the data and tag of a removed node. -/
inductive Reply (δ : Type)
  | done
  | failed
  | removed (data : δ) (tag : ℤ)
  deriving DecidableEq

/-- `dyna_create`. -/
def dynaCreate : Dyna δ := ⟨fun _ => none, none, none, 0⟩

namespace Dyna

/-- Assigns to `prev_ptr` of a node, unless the pointer to the node is NULL. -/
def setPrev (s : Dyna δ) (p v : Option ℕ) : Option (Dyna δ) :=
  match p with
  | none => some s
  | some a => (s.heap a).map fun item =>
    { s with heap := Function.update s.heap a (some { item with prevPtr := v }) }

/-- Assigns to `next_ptr` of a node, unless the pointer to the node is NULL. -/
def setNext (s : Dyna δ) (p v : Option ℕ) : Option (Dyna δ) :=
  match p with
  | none => some s
  | some a => (s.heap a).map fun item =>
    { s with heap := Function.update s.heap a (some { item with nextPtr := v }) }

/-- `dyna_delete` of the node at `a`. -/
def dynaDelete (s : Dyna δ) (a : ℕ) : Option (Dyna δ) := do
  let item ← s.heap a
  let s ← s.setPrev item.nextPtr item.prevPtr
  let item ← s.heap a
  let s ← s.setNext item.prevPtr item.nextPtr
  let item ← s.heap a
  let s := if s.head = some a then { s with head := item.nextPtr } else s
  let s := if s.tail = some a then { s with tail := item.prevPtr } else s
  some { s with heap := Function.update s.heap a none, count := s.count - 1 }

/-- The loop of `dyna_delete_all` from `current_ptr` on, for at most so many iterations. -/
def deleteFrom : ℕ → Option ℕ → Dyna δ → Option (Dyna δ)
  | _, none, s => some s
  | 0, some _, _ => none
  | n + 1, some a, s => do
    let item ← s.heap a
    let s ← s.dynaDelete a
    deleteFrom n item.nextPtr s

/-- `dyna_delete_all`. -/
def dynaDeleteAll (fuel : ℕ) (s : Dyna δ) : Option (Dyna δ) := deleteFrom fuel s.head s

/-- `dyna_push`. -/
def dynaPush (s : Dyna δ) (malloc : Option ℕ) (data : δ) (tag : ℤ) : Option (Dyna δ × Reply δ) :=
  match malloc with
  | none => some (s, .failed)
  | some a => do
    let s := { s with heap := Function.update s.heap a (some ⟨data, tag, s.head, none⟩) }
    let s ← s.setPrev s.head (some a)
    let s := { s with head := some a }
    let s := if s.tail = none then { s with tail := s.head } else s
    some ({ s with count := s.count + 1 }, .done)

/-- `dyna_pop`. -/
def dynaPop (s : Dyna δ) : Option (Dyna δ × Reply δ) :=
  if s.count = 0 then some (s, .failed)
  else do
    let a ← s.head
    let item ← s.heap a
    let s ← { s with head := item.nextPtr }.dynaDelete a
    let s := if s.head = none then { s with tail := none } else s
    some (s, .removed item.data item.tag)

/-- `dyna_add_to_back`. -/
def dynaAddToBack (s : Dyna δ) (malloc : Option ℕ) (data : δ) (tag : ℤ) :
    Option (Dyna δ × Reply δ) :=
  match malloc with
  | none => some (s, .failed)
  | some a => do
    let s := { s with heap := Function.update s.heap a (some ⟨data, tag, none, s.tail⟩) }
    let s ← match s.tail with
      | some t => (s.setNext (some t) (some a)).map fun s => { s with tail := some a }
      | none => some { s with tail := some a, head := some a }
    some ({ s with count := s.count + 1 }, .done)

/-- `dyna_del_from_front`. -/
def dynaDelFromFront (s : Dyna δ) : Option (Dyna δ × Reply δ) := s.dynaPop

/-- `dyna_del_from_back`. -/
def dynaDelFromBack (s : Dyna δ) : Option (Dyna δ × Reply δ) :=
  if s.count = 0 then some (s, .failed)
  else do
    let a ← s.tail
    let item ← s.heap a
    let s ← { s with tail := item.prevPtr }.dynaDelete a
    let s := if s.tail = none then { s with head := none } else s
    some (s, .removed item.data item.tag)

end Dyna

/-! ## Operations and the list they work on -/

/-- Operations with their arguments; `malloc` is the address that the operation is given. -/
inductive Op (δ : Type)
  | push (malloc : Option ℕ) (data : δ) (tag : ℤ)
  | addToBack (malloc : Option ℕ) (data : δ) (tag : ℤ)
  | pop
  | delFromFront
  | delFromBack
  | delete (item : ℕ)
  | deleteAll
  deriving DecidableEq

/-- One operation on the nodes. -/
def Op.exec (fuel : ℕ) (s : Dyna δ) : Op δ → Option (Dyna δ × Reply δ)
  | .push malloc data tag => s.dynaPush malloc data tag
  | .addToBack malloc data tag => s.dynaAddToBack malloc data tag
  | .pop => s.dynaPop
  | .delFromFront => s.dynaDelFromFront
  | .delFromBack => s.dynaDelFromBack
  | .delete item => (s.dynaDelete item).map fun s => (s, .done)
  | .deleteAll => (s.dynaDeleteAll fuel).map fun s => (s, .done)

/-- A sequence of operations on the nodes, with the answers. -/
def execAll (fuel : ℕ) : Dyna δ → List (Op δ) → Option (Dyna δ × List (Reply δ))
  | s, [] => some (s, [])
  | s, op :: ops => do
    let r ← op.exec fuel s
    let rs ← execAll fuel r.1 ops
    some (rs.1, r.2 :: rs.2)

/-- An element of the abstract list: its data and tag, and the address by which a caller names
it. -/
structure Cell (δ : Type) where
  addr : ℕ
  data : δ
  tag : ℤ
  deriving DecidableEq

/-- What the operations mean for a list. -/
def Op.onList (l : List (Cell δ)) : Op δ → List (Cell δ) × Reply δ
  | .push none _ _ => (l, .failed)
  | .push (some a) data tag => (⟨a, data, tag⟩ :: l, .done)
  | .addToBack none _ _ => (l, .failed)
  | .addToBack (some a) data tag => (l ++ [⟨a, data, tag⟩], .done)
  | .pop | .delFromFront => match l with
    | [] => ([], .failed)
    | c :: l => (l, .removed c.data c.tag)
  | .delFromBack => match l.getLast? with
    | none => ([], .failed)
    | some c => (l.dropLast, .removed c.data c.tag)
  | .delete a => (l.filter fun c => c.addr ≠ a, .done)
  | .deleteAll => ([], .done)

/-- `malloc` gives an address that is not in use, and only a member is deleted. -/
def Op.Legal (l : List (Cell δ)) : Op δ → Prop
  | .push (some a) _ _ | .addToBack (some a) _ _ => a ∉ l.map Cell.addr
  | .delete a => a ∈ l.map Cell.addr
  | .push none _ _ | .addToBack none _ _ | .pop | .delFromFront | .delFromBack | .deleteAll => True

instance (l : List (Cell δ)) (op : Op δ) : Decidable (op.Legal l) :=
  match op with
  | .push (some a) _ _ | .addToBack (some a) _ _ =>
    inferInstanceAs (Decidable (a ∉ l.map Cell.addr))
  | .delete a => inferInstanceAs (Decidable (a ∈ l.map Cell.addr))
  | .push none _ _ | .addToBack none _ _ | .pop | .delFromFront | .delFromBack | .deleteAll =>
    inferInstanceAs (Decidable True)

/-- A sequence of operations on a list; no result when one of them is not legal. -/
def onListAll : List (Cell δ) → List (Op δ) → Option (List (Cell δ) × List (Reply δ))
  | l, [] => some (l, [])
  | l, op :: ops =>
    if op.Legal l then
      (onListAll (op.onList l).1 ops).map fun r => (r.1, (op.onList l).2 :: r.2)
    else none

lemma Op.length_onList (op : Op δ) (l : List (Cell δ)) : (op.onList l).1.length ≤ l.length + 1 := by
  cases op with
  | push malloc data tag => cases malloc <;> simp [Op.onList]
  | addToBack malloc data tag => cases malloc <;> simp [Op.onList]
  | pop =>
    cases l with
    | nil => simp [Op.onList]
    | cons c l =>
      simp only [Op.onList, List.length_cons]
      omega
  | delFromFront =>
    cases l with
    | nil => simp [Op.onList]
    | cons c l =>
      simp only [Op.onList, List.length_cons]
      omega
  | delFromBack =>
    unfold Op.onList
    dsimp only
    split
    · simp
    · rw [List.length_dropLast]
      omega
  | delete a =>
    have hlength := List.length_filter_le (fun c : Cell δ => c.addr ≠ a) l
    exact Nat.le_succ_of_le hlength
  | deleteAll => simp [Op.onList]

/-! ## What the nodes hold -/

def nextOf (heap : ℕ → Option (Item δ)) (a : ℕ) : Option ℕ := (heap a).bind Item.nextPtr

def prevOf (heap : ℕ → Option (Item δ)) (a : ℕ) : Option ℕ := (heap a).bind Item.prevPtr

def valueOf (heap : ℕ → Option (Item δ)) (a : ℕ) : Option (δ × ℤ) :=
  (heap a).map fun item => (item.data, item.tag)

section heap

variable {heap : ℕ → Option (Item δ)} {a : ℕ} {p v : Option ℕ} {item : Item δ} {s : Dyna δ}

lemma nextOf_update (x : Option (Item δ)) :
    nextOf (Function.update heap a x) = Function.update (nextOf heap) a (x.bind Item.nextPtr) := by
  ext1 b
  by_cases h : b = a
  · subst h
    simp [nextOf]
  · simp [nextOf, h]

lemma prevOf_update (x : Option (Item δ)) :
    prevOf (Function.update heap a x) = Function.update (prevOf heap) a (x.bind Item.prevPtr) := by
  ext1 b
  by_cases h : b = a
  · subst h
    simp [prevOf]
  · simp [prevOf, h]

lemma valueOf_update (x : Option (Item δ)) :
    valueOf (Function.update heap a x) =
      Function.update (valueOf heap) a (x.map fun item => (item.data, item.tag)) := by
  ext1 b
  by_cases h : b = a
  · subst h
    simp [valueOf]
  · simp [valueOf, h]

/-- A node that holds a value can be read. -/
lemma exists_item {x : δ × ℤ} (h : valueOf heap a = some x) :
    ∃ item, heap a = some item ∧ item.nextPtr = nextOf heap a ∧ item.prevPtr = prevOf heap a ∧
      (item.data, item.tag) = x := by
  obtain ⟨item, hitem, hx⟩ := Option.map_eq_some_iff.1 h
  exact ⟨item, hitem, by simp [nextOf, hitem], by simp [prevOf, hitem], hx⟩

/-- A write to `prev_ptr` changes nothing else. -/
lemma setPrev_spec (hp : ∀ a, p = some a → (valueOf s.heap a).isSome) (v : Option ℕ) :
    ∃ heap, s.setPrev p v = some { s with heap := heap } ∧ nextOf heap = nextOf s.heap ∧
      prevOf heap = redirect (prevOf s.heap) p v ∧ valueOf heap = valueOf s.heap := by
  cases p with
  | none => exact ⟨s.heap, rfl, rfl, rfl, rfl⟩
  | some a =>
    obtain ⟨x, hx⟩ := Option.isSome_iff_exists.1 (hp a rfl)
    obtain ⟨item, hitem, hnext, -, hvalue⟩ := exists_item hx
    refine ⟨Function.update s.heap a (some { item with prevPtr := v }), ?_, ?_, ?_, ?_⟩
    · simp [Dyna.setPrev, hitem]
    · rw [nextOf_update, Option.bind_some, hnext, Function.update_eq_self]
    · rw [prevOf_update, Option.bind_some, redirect]
    · rw [valueOf_update, Option.map_some, hvalue, ← hx, Function.update_eq_self]

/-- A write to `next_ptr` changes nothing else. -/
lemma setNext_spec (hp : ∀ a, p = some a → (valueOf s.heap a).isSome) (v : Option ℕ) :
    ∃ heap, s.setNext p v = some { s with heap := heap } ∧
      nextOf heap = redirect (nextOf s.heap) p v ∧
      prevOf heap = prevOf s.heap ∧ valueOf heap = valueOf s.heap := by
  cases p with
  | none => exact ⟨s.heap, rfl, rfl, rfl, rfl⟩
  | some a =>
    obtain ⟨x, hx⟩ := Option.isSome_iff_exists.1 (hp a rfl)
    obtain ⟨item, hitem, -, hprev, hvalue⟩ := exists_item hx
    refine ⟨Function.update s.heap a (some { item with nextPtr := v }), ?_, ?_, ?_, ?_⟩
    · simp [Dyna.setNext, hitem]
    · rw [nextOf_update, Option.bind_some, redirect]
    · rw [prevOf_update, Option.bind_some, hprev, Function.update_eq_self]
    · rw [valueOf_update, Option.map_some, hvalue, ← hx, Function.update_eq_self]

end heap

/-! ## The list in the heap -/

/-- The nodes of the heap are the elements of the list, linked in both directions. -/
structure Holds (heap : ℕ → Option (Item δ)) (l : List (Cell δ)) : Prop where
  forward : Path (nextOf heap) (l.map Cell.addr).head? (l.map Cell.addr) none
  backward : Path (prevOf heap) (l.map Cell.addr).getLast? (l.map Cell.addr).reverse none
  value : ∀ c ∈ l, valueOf heap c.addr = some (c.data, c.tag)
  freed : ∀ a ∉ l.map Cell.addr, valueOf heap a = none

namespace Holds

variable {heap : ℕ → Option (Item δ)} {s : Dyna δ} {l l₁ l₂ : List (Cell δ)} {c : Cell δ}

lemma addr_ne {a : ℕ} (ha : a ∉ l.map Cell.addr) (hc : c ∈ l) : c.addr ≠ a := by
  rintro rfl
  exact ha (List.mem_map_of_mem hc)

lemma isSome (h : Holds heap l) {a : ℕ} (ha : a ∈ l.map Cell.addr) : (valueOf heap a).isSome := by
  obtain ⟨c, hc, rfl⟩ := List.mem_map.1 ha
  rw [h.value c hc]
  rfl

lemma notMem (h : Holds heap (l₁ ++ c :: l₂)) :
    c.addr ∉ l₁.map Cell.addr ∧ c.addr ∉ l₂.map Cell.addr := by
  have hpath := h.forward
  rw [List.map_append, List.map_cons] at hpath
  exact hpath.notMem

lemma next_eq (h : Holds heap (l₁ ++ c :: l₂)) :
    nextOf heap c.addr = (l₂.map Cell.addr).head? := by
  have hpath := h.forward
  rw [List.map_append, List.map_cons] at hpath
  exact hpath.link_eq

lemma prev_eq (h : Holds heap (l₁ ++ c :: l₂)) :
    prevOf heap c.addr = (l₁.map Cell.addr).getLast? := by
  have hpath := h.backward
  simp only [List.map_append, List.map_cons, List.reverse_append, List.reverse_cons,
    List.append_assoc, List.singleton_append] at hpath
  rw [hpath.link_eq, List.head?_reverse]

/-- The address of a node names it in the list. -/
lemma filter_addr_ne (h : Holds heap (l₁ ++ c :: l₂)) :
    (l₁ ++ c :: l₂).filter (fun b => b.addr ≠ c.addr) = l₁ ++ l₂ := by
  have hfilter : ∀ l : List (Cell δ), c.addr ∉ l.map Cell.addr →
      l.filter (fun b => b.addr ≠ c.addr) = l := by
    intro l hl
    exact List.filter_eq_self.2 fun b hb => by simpa using addr_ne hl hb
  rw [List.filter_append, List.filter_cons_of_neg (by simp), hfilter l₁ h.notMem.1,
    hfilter l₂ h.notMem.2]

/-- The node after another one is allocated and is another one. -/
lemma next_ne (h : Holds heap (l₁ ++ c :: l₂)) {a : ℕ} (ha : nextOf heap c.addr = some a) :
    (valueOf heap a).isSome ∧ a ≠ c.addr := by
  rw [h.next_eq] at ha
  have hmem := List.mem_of_head? ha
  refine ⟨h.isSome (by simp [hmem]), ?_⟩
  rintro rfl
  exact h.notMem.2 hmem

/-- The node before another one is allocated and is another one. -/
lemma prev_ne (h : Holds heap (l₁ ++ c :: l₂)) {a : ℕ} (ha : prevOf heap c.addr = some a) :
    (valueOf heap a).isSome ∧ a ≠ c.addr := by
  rw [h.prev_eq] at ha
  have hmem := List.mem_of_getLast? ha
  refine ⟨h.isSome (by simp [hmem]), ?_⟩
  rintro rfl
  exact h.notMem.1 hmem

/-- A node is freed after its neighbours have been linked to each other. -/
lemma takeOut (h : Holds heap (l₁ ++ c :: l₂)) {heap' : ℕ → Option (Item δ)}
    (hnext : nextOf heap' = Function.update
      (redirect (nextOf heap) (prevOf heap c.addr) (nextOf heap c.addr)) c.addr none)
    (hprev : prevOf heap' = Function.update
      (redirect (prevOf heap) (nextOf heap c.addr) (prevOf heap c.addr)) c.addr none)
    (hvalue : valueOf heap' = Function.update (valueOf heap) c.addr none) :
    Holds heap' (l₁ ++ l₂) where
  forward := by
    have hpath := h.forward
    rw [List.map_append, List.map_cons] at hpath
    have hunlink := hpath.unlink.update_of_notMem (a := c.addr) (r := none) (by simp [h.notMem])
    rwa [hnext, h.prev_eq, List.map_append]
  backward := by
    have hpath := h.backward
    simp only [List.map_append, List.map_cons, List.reverse_append, List.reverse_cons,
      List.append_assoc, List.singleton_append] at hpath
    have hunlink := hpath.unlink.update_of_notMem (a := c.addr) (r := none) (by simp [h.notMem])
    rw [hprev, h.next_eq, List.map_append, ← List.head?_reverse, List.reverse_append]
    rwa [List.getLast?_reverse] at hunlink
  value := by
    intro c' hc'
    have hne : c'.addr ≠ c.addr := addr_ne (by simp [h.notMem]) hc'
    rw [hvalue, Function.update_of_ne hne]
    refine h.value c' ?_
    rw [List.mem_append, List.mem_cons]
    exact (List.mem_append.1 hc').imp_right .inr
  freed := by
    intro a ha
    rw [hvalue]
    by_cases heq : a = c.addr
    · subst heq
      simp
    · rw [Function.update_of_ne heq]
      refine h.freed a ?_
      simpa [heq] using ha

/-- A node is taken out of its place, wherever `head` and `tail` point by now. -/
lemma dynaDelete (h : Holds s.heap (l₁ ++ c :: l₂)) :
    ∃ heap, Holds heap (l₁ ++ l₂) ∧ s.dynaDelete c.addr = some
      ⟨heap, if s.head = some c.addr then (l₂.map Cell.addr).head? else s.head,
        if s.tail = some c.addr then (l₁.map Cell.addr).getLast? else s.tail, s.count - 1⟩ := by
  have hvalue := h.value c (by simp)
  obtain ⟨item, hitem, hin, hip, -⟩ := exists_item hvalue
  obtain ⟨heap₁, hset₁, hnext₁, hprev₁, hvalue₁⟩ :=
    setPrev_spec (fun a ha => (h.next_ne ha).1) (prevOf s.heap c.addr)
  -- the node itself is read again after each write to a neighbour
  obtain ⟨item₁, hitem₁, hin₁, hip₁, -⟩ := exists_item (hvalue₁ ▸ hvalue)
  rw [hnext₁] at hin₁
  rw [hprev₁, redirect_of_ne fun ha => (h.next_ne ha).2 rfl] at hip₁
  obtain ⟨heap₂, hset₂, hnext₂, hprev₂, hvalue₂⟩ :=
    @setNext_spec δ (prevOf s.heap c.addr) { s with heap := heap₁ }
      (fun a ha => hvalue₁ ▸ (h.prev_ne ha).1) (nextOf s.heap c.addr)
  dsimp only at hnext₂ hprev₂ hvalue₂
  obtain ⟨item₂, hitem₂, hin₂, hip₂, -⟩ := exists_item (hvalue₂ ▸ hvalue₁ ▸ hvalue)
  rw [hnext₂, redirect_of_ne fun ha => (h.prev_ne ha).2 rfl, hnext₁, h.next_eq] at hin₂
  rw [hprev₂, hprev₁, redirect_of_ne fun ha => (h.next_ne ha).2 rfl, h.prev_eq] at hip₂
  refine ⟨Function.update heap₂ c.addr none, h.takeOut ?_ ?_ ?_, ?_⟩
  · rw [nextOf_update, hnext₂, hnext₁]
    rfl
  · rw [prevOf_update, hprev₂, hprev₁]
    rfl
  · rw [valueOf_update, hvalue₂, hvalue₁]
    rfl
  · simp only [Dyna.dynaDelete, hitem, hin, hip, hset₁, hitem₁, hin₁, hip₁, hset₂, hitem₂, hin₂,
      hip₂, Option.bind_eq_bind, Option.bind_some]
    split <;> split <;> rfl

/-- A new node in front. -/
lemma push (h : Holds heap l) {a : ℕ} (ha : a ∉ l.map Cell.addr) {data : δ} {tag : ℤ}
    {heap' : ℕ → Option (Item δ)}
    (hnext : nextOf heap' = Function.update (nextOf heap) a (l.map Cell.addr).head?)
    (hprev : prevOf heap' =
      redirect (Function.update (prevOf heap) a none) (l.map Cell.addr).head? (some a))
    (hvalue : valueOf heap' = Function.update (valueOf heap) a (some (data, tag))) :
    Holds heap' (⟨a, data, tag⟩ :: l) where
  forward := by
    rw [hnext]
    exact h.forward.cons_update ha
  backward := by
    have hconcat := (h.backward.update_of_notMem (r := none) (by simpa using ha)).concat_update
      (b := a) (by simpa using ha) (by simp)
    rw [List.getLast?_reverse] at hconcat
    rw [hprev, List.map_cons, List.reverse_cons, ← List.head?_reverse, List.reverse_cons]
    exact hconcat
  value := by
    intro c hc
    rw [hvalue]
    obtain rfl | hc := List.mem_cons.1 hc
    · simp
    · rw [Function.update_of_ne (addr_ne ha hc), h.value c hc]
  freed := by
    intro b hb
    rw [List.map_cons, List.mem_cons, not_or] at hb
    rw [hvalue, Function.update_of_ne hb.1, h.freed b hb.2]

/-- A new node at the back. -/
lemma addToBack (h : Holds heap l) {a : ℕ} (ha : a ∉ l.map Cell.addr) {data : δ} {tag : ℤ}
    {heap' : ℕ → Option (Item δ)}
    (hnext : nextOf heap' =
      redirect (Function.update (nextOf heap) a none) (l.map Cell.addr).getLast? (some a))
    (hprev : prevOf heap' = Function.update (prevOf heap) a (l.map Cell.addr).getLast?)
    (hvalue : valueOf heap' = Function.update (valueOf heap) a (some (data, tag))) :
    Holds heap' (l ++ [⟨a, data, tag⟩]) where
  forward := by
    rw [hnext, List.map_append]
    exact (h.forward.update_of_notMem (r := none) ha).concat_update ha (by simp)
  backward := by
    rw [hprev, List.map_append, List.map_singleton, List.getLast?_concat, List.reverse_append]
    exact h.backward.cons_update (by simpa using ha)
  value := by
    intro c hc
    rw [hvalue]
    obtain hc | hc := List.mem_append.1 hc
    · rw [Function.update_of_ne (addr_ne ha hc), h.value c hc]
    · obtain rfl := List.mem_singleton.1 hc
      simp
  freed := by
    intro b hb
    rw [List.map_append, List.mem_append, not_or] at hb
    rw [hvalue, Function.update_of_ne (by simpa using hb.2), h.freed b hb.1]

end Holds

/-- The structure as the operations leave it. -/
structure Represents (s : Dyna δ) (l : List (Cell δ)) : Prop where
  holds : Holds s.heap l
  head : s.head = (l.map Cell.addr).head?
  tail : s.tail = (l.map Cell.addr).getLast?
  count : s.count = l.length

namespace Represents

variable {s : Dyna δ} {l l₁ l₂ : List (Cell δ)} {c : Cell δ} {fuel : ℕ}

lemma create : Represents (dynaCreate : Dyna δ) [] where
  holds := ⟨rfl, rfl, by simp, fun _ _ => rfl⟩
  head := rfl
  tail := rfl
  count := rfl

lemma push (h : Represents s l) {a : ℕ} (ha : a ∉ l.map Cell.addr) (data : δ) (tag : ℤ) :
    ∃ t, s.dynaPush (some a) data tag = some (t, .done) ∧
      Represents t (⟨a, data, tag⟩ :: l) := by
  obtain ⟨heap, hset, hnext, hprev, hvalue⟩ :=
    @setPrev_spec δ s.head
      { s with heap := Function.update s.heap a (some ⟨data, tag, s.head, none⟩) } (by
      intro b hb
      rw [h.head] at hb
      have hmem := List.mem_of_head? hb
      have hne : b ≠ a := by
        rintro rfl
        exact ha hmem
      rw [valueOf_update, Function.update_of_ne hne]
      exact h.holds.isSome hmem) (some a)
  dsimp only at hnext hprev hvalue
  rw [nextOf_update, Option.bind_some, h.head] at hnext
  rw [prevOf_update, Option.bind_some, h.head] at hprev
  rw [valueOf_update, Option.map_some] at hvalue
  refine ⟨⟨heap, some a, if s.tail = none then some a else s.tail, s.count + 1⟩, ?_, ?_⟩
  · simp only [Dyna.dynaPush, hset, Option.bind_eq_bind, Option.bind_some]
    split <;> rfl
  · refine ⟨h.holds.push ha hnext hprev hvalue, rfl, ?_, ?_⟩
    · rw [h.tail]
      cases hl : (l.map Cell.addr).getLast? with
      | none => simp [List.getLast?_eq_none_iff.1 hl]
      | some b => simp [List.getLast?_cons, hl]
    · simp [h.count]

lemma addToBack (h : Represents s l) {a : ℕ} (ha : a ∉ l.map Cell.addr) (data : δ) (tag : ℤ) :
    ∃ t, s.dynaAddToBack (some a) data tag = some (t, .done) ∧
      Represents t (l ++ [⟨a, data, tag⟩]) := by
  obtain ⟨heap, hset, hnext, hprev, hvalue⟩ :=
    @setNext_spec δ s.tail
      { s with heap := Function.update s.heap a (some ⟨data, tag, none, s.tail⟩) } (by
      intro b hb
      rw [h.tail] at hb
      have hmem := List.mem_of_getLast? hb
      have hne : b ≠ a := by
        rintro rfl
        exact ha hmem
      rw [valueOf_update, Function.update_of_ne hne]
      exact h.holds.isSome hmem) (some a)
  dsimp only at hnext hprev hvalue
  rw [nextOf_update, Option.bind_some, h.tail] at hnext
  rw [prevOf_update, Option.bind_some, h.tail] at hprev
  rw [valueOf_update, Option.map_some] at hvalue
  refine ⟨⟨heap, if s.tail = none then some a else s.head, some a, s.count + 1⟩, ?_, ?_⟩
  · cases htail : s.tail with
    | none =>
      have hheap : Function.update s.heap a (some ⟨data, tag, none, none⟩) = heap := by
        simpa [Dyna.setNext, htail] using hset
      simp [Dyna.dynaAddToBack, htail, ← hheap]
    | some b =>
      rw [htail] at hset
      simp [Dyna.dynaAddToBack, htail, hset]
  · refine ⟨h.holds.addToBack ha hnext hprev hvalue, ?_, ?_, ?_⟩
    · rw [h.tail, h.head]
      cases l with
      | nil => rfl
      | cons c l => simp [List.getLast?_cons]
    · simp
    · simp [h.count]

lemma delete (h : Represents s (l₁ ++ c :: l₂)) :
    ∃ t, s.dynaDelete c.addr = some t ∧ Represents t (l₁ ++ l₂) := by
  obtain ⟨heap, hholds, hdelete⟩ := h.holds.dynaDelete
  obtain ⟨hnot₁, hnot₂⟩ := h.holds.notMem
  refine ⟨_, hdelete, hholds, ?_, ?_, ?_⟩
  · rw [h.head]
    cases l₁ with
    | nil => simp
    | cons b l₁ =>
      have hne : b.addr ≠ c.addr := by
        intro heq
        exact hnot₁ (by simp [heq])
      simp [hne]
  · rw [h.tail]
    rcases List.eq_nil_or_concat' l₂ with rfl | ⟨l₂, b, rfl⟩
    · simp
    · have hne : b.addr ≠ c.addr := by
        intro heq
        exact hnot₂ (by simp [heq])
      have hlast : (l₁.map Cell.addr ++ c.addr :: (l₂.map Cell.addr ++ [b.addr])).getLast? =
          some b.addr := by
        rw [← List.cons_append, ← List.append_assoc, List.getLast?_concat]
      simp [hlast, hne]
  · dsimp only
    rw [h.count, List.length_append, List.length_cons, List.length_append]
    omega

lemma pop_nil (h : Represents s []) :
    s.dynaPop = some (s, .failed) ∧ s.dynaDelFromBack = some (s, .failed) := by
  have hcount : s.count = 0 := h.count
  simp [Dyna.dynaPop, Dyna.dynaDelFromBack, hcount]

/-- `head` is moved before the first node is deleted. -/
lemma pop (h : Represents s (c :: l)) :
    ∃ t, s.dynaPop = some (t, .removed c.data c.tag) ∧ Represents t l := by
  have hcount : s.count ≠ 0 := by
    rw [h.count, List.length_cons]
    omega
  have hhead : s.head = some c.addr := h.head
  obtain ⟨item, hitem, hnext, -, hvalue⟩ := exists_item (h.holds.value c (by simp))
  obtain ⟨hdata, htag⟩ := Prod.mk.inj hvalue
  rw [@Holds.next_eq _ _ [] l _ h.holds] at hnext
  obtain ⟨heap, hholds, hdelete⟩ :=
    @Holds.dynaDelete _ { s with head := (l.map Cell.addr).head? } [] l _ h.holds
  have hnot : c.addr ∉ l.map Cell.addr := (@Holds.notMem _ _ [] l _ h.holds).2
  have hne : (l.map Cell.addr).head? ≠ some c.addr := fun heq => hnot (List.mem_of_head? heq)
  rw [if_neg hne] at hdelete
  refine ⟨⟨heap, (l.map Cell.addr).head?, (l.map Cell.addr).getLast?, l.length⟩, ?_,
    hholds, rfl, rfl, rfl⟩
  simp only [Dyna.dynaPop, hcount, hhead, hitem, hnext, hdelete, hdata, htag, Option.bind_eq_bind,
    Option.bind_some, if_false]
  simp only [h.tail, h.count]
  rcases List.eq_nil_or_concat' l with rfl | ⟨l', b, rfl⟩
  · simp
  · have hb : b.addr ≠ c.addr := fun heq => hnot (by simp [heq])
    simp [List.getLast?_cons, hb]

/-- `tail` is moved before the last node is deleted. -/
lemma delFromBack (h : Represents s (l ++ [c])) :
    ∃ t, s.dynaDelFromBack = some (t, .removed c.data c.tag) ∧ Represents t l := by
  have hcount : s.count ≠ 0 := by
    rw [h.count, List.length_append, List.length_singleton]
    omega
  have htail : s.tail = some c.addr := by simpa using h.tail
  obtain ⟨item, hitem, -, hprev, hvalue⟩ := exists_item (h.holds.value c (by simp))
  obtain ⟨hdata, htag⟩ := Prod.mk.inj hvalue
  rw [h.holds.prev_eq] at hprev
  obtain ⟨heap, hholds, hdelete⟩ :=
    @Holds.dynaDelete _ { s with tail := (l.map Cell.addr).getLast? } l [] _ h.holds
  have hnot : c.addr ∉ l.map Cell.addr := h.holds.notMem.1
  have hne : (l.map Cell.addr).getLast? ≠ some c.addr := fun heq => hnot (List.mem_of_getLast? heq)
  rw [if_neg hne] at hdelete
  rw [List.append_nil] at hholds
  refine ⟨⟨heap, (l.map Cell.addr).head?, (l.map Cell.addr).getLast?, l.length⟩, ?_,
    hholds, rfl, rfl, rfl⟩
  simp only [Dyna.dynaDelFromBack, hcount, htail, hitem, hprev, hdelete, hdata, htag,
    Option.bind_eq_bind, Option.bind_some, if_false]
  simp only [h.head, h.count]
  cases l with
  | nil => simp
  | cons b l =>
    have hb : b.addr ≠ c.addr := fun heq => hnot (by simp [heq])
    simp [hb]

/-- The loop deletes one node after the other; the address of the next one is read before. -/
lemma deleteAll (h : Represents s l) (hfuel : l.length ≤ fuel) :
    ∃ t, s.dynaDeleteAll fuel = some t ∧ Represents t [] := by
  unfold Dyna.dynaDeleteAll
  rw [h.head]
  induction l generalizing s fuel with
  | nil => exact ⟨s, by simp [Dyna.deleteFrom], h⟩
  | cons c l ih =>
    obtain ⟨n, rfl⟩ : ∃ n, fuel = n + 1 := ⟨fuel - 1, by rw [List.length_cons] at hfuel; omega⟩
    obtain ⟨item, hitem, hnext, -⟩ := exists_item (h.holds.value c (by simp))
    rw [@Holds.next_eq _ _ [] l _ h.holds] at hnext
    obtain ⟨t, ht, hrep⟩ := @delete _ s [] l c h
    obtain ⟨u, hu, hnil⟩ := @ih t n hrep (by rw [List.length_cons] at hfuel; omega)
    refine ⟨u, ?_, hnil⟩
    simp only [List.map_cons, List.head?_cons, Dyna.deleteFrom, hitem, hnext, ht,
      Option.bind_eq_bind, Option.bind_some]
    exact hu

/-- One operation on the nodes is the operation on the list. -/
lemma step (h : Represents s l) {op : Op δ} (hop : op.Legal l) (hfuel : l.length ≤ fuel) :
    ∃ t, op.exec fuel s = some (t, (op.onList l).2) ∧ Represents t (op.onList l).1 := by
  have hpop : ∃ t, s.dynaPop = some (t, ((Op.pop : Op δ).onList l).2) ∧
      Represents t ((Op.pop : Op δ).onList l).1 := by
    cases l with
    | nil => exact ⟨s, h.pop_nil.1, h⟩
    | cons c l => exact h.pop
  cases op with
  | push malloc data tag =>
    cases malloc with
    | none => exact ⟨s, rfl, h⟩
    | some a => exact h.push hop data tag
  | addToBack malloc data tag =>
    cases malloc with
    | none => exact ⟨s, rfl, h⟩
    | some a => exact h.addToBack hop data tag
  | pop => exact hpop
  | delFromFront => exact hpop
  | delFromBack =>
    rcases List.eq_nil_or_concat' l with rfl | ⟨l, c, rfl⟩
    · exact ⟨s, h.pop_nil.2, h⟩
    · simpa [Op.exec, Op.onList] using h.delFromBack
  | delete a =>
    obtain ⟨c, hc, rfl⟩ := List.mem_map.1 hop
    obtain ⟨l₁, l₂, rfl⟩ := List.append_of_mem hc
    obtain ⟨t, ht, hrep⟩ := h.delete
    refine ⟨t, by simp [Op.exec, Op.onList, ht], ?_⟩
    rw [Op.onList, h.holds.filter_addr_ne]
    exact hrep
  | deleteAll =>
    obtain ⟨t, ht, hrep⟩ := h.deleteAll hfuel
    exact ⟨t, by simp [Op.exec, Op.onList, ht], hrep⟩

/-- A sequence of operations on the nodes is the sequence on the list. An operation adds at most
one node. -/
lemma run (h : Represents s l) {ops : List (Op δ)} {l' : List (Cell δ)} {replies : List (Reply δ)}
    (hops : onListAll l ops = some (l', replies)) (hfuel : l.length + ops.length ≤ fuel) :
    ∃ t, execAll fuel s ops = some (t, replies) ∧ Represents t l' := by
  induction ops generalizing s l replies with
  | nil =>
    obtain ⟨rfl, rfl⟩ := Prod.mk.inj (Option.some.inj hops)
    exact ⟨s, rfl, h⟩
  | cons op ops ih =>
    rw [onListAll] at hops
    split at hops
    · rename_i hop
      obtain ⟨⟨l₁, rs⟩, hrest, heq⟩ := Option.map_eq_some_iff.1 hops
      obtain ⟨rfl, rfl⟩ := Prod.mk.inj heq
      rw [List.length_cons] at hfuel
      have hlt : l.length ≤ fuel := by omega
      obtain ⟨t, ht, hrep⟩ := h.step hop hlt
      have hlength := op.length_onList l
      obtain ⟨u, hu, hrep'⟩ := ih hrep hrest (by omega)
      exact ⟨u, by simp [execAll, ht, hu], hrep'⟩
    · cases hops

end Represents

/-- The structure is the list: both chains of pointers spell its addresses, once forwards and once
backwards and each address once, the counter and the ends agree with it, every node holds the data
and tag of its element, and no other node is left in the heap. -/
structure IsList (s : Dyna δ) (l : List (Cell δ)) : Prop where
  forward : Path (nextOf s.heap) s.head (l.map Cell.addr) none
  backward : Path (prevOf s.heap) s.tail (l.map Cell.addr).reverse none
  nodup : (l.map Cell.addr).Nodup
  count : s.count = l.length
  head_eq_none : s.head = none ↔ l = []
  tail_eq_none : s.tail = none ↔ l = []
  values : (l.map Cell.addr).map (valueOf s.heap) = l.map fun c => some (c.data, c.tag)
  allocated : ∀ a, (s.heap a).isSome ↔ a ∈ l.map Cell.addr

lemma Represents.isList {s : Dyna δ} {l : List (Cell δ)} (h : Represents s l) : IsList s l where
  forward := by
    rw [h.head]
    exact h.holds.forward
  backward := by
    rw [h.tail]
    exact h.holds.backward
  nodup := h.holds.forward.nodup
  count := h.count
  head_eq_none := by simp [h.head]
  tail_eq_none := by simp [h.tail]
  values := by
    rw [List.map_map]
    exact List.map_congr_left h.holds.value
  allocated := by
    intro a
    have hsome : (s.heap a).isSome = (valueOf s.heap a).isSome := by simp [valueOf]
    rw [hsome]
    refine ⟨fun ha => ?_, h.holds.isSome⟩
    by_contra hnot
    simp [h.holds.freed a hnot] at ha

/-- From `dyna_create` on, every legal sequence of operations goes through, gives the answers that
the same operations give on a list, and leaves the structure of that list. -/
theorem dyna_isList {ops : List (Op δ)} {l : List (Cell δ)} {replies : List (Reply δ)} {fuel : ℕ}
    (hops : onListAll [] ops = some (l, replies)) (hfuel : ops.length ≤ fuel) :
    ∃ s, execAll fuel dynaCreate ops = some (s, replies) ∧ IsList s l := by
  obtain ⟨s, hs, hrep⟩ := Represents.create.run hops (by simpa using hfuel)
  exact ⟨s, hs, hrep.isList⟩

/-- Both ends and the middle of a list of up to three elements. -/
def sampleOps : List (Op ℕ) :=
  [.pop, .push (some 8) 1 0, .addToBack (some 16) 2 1, .push (some 24) 3 0, .push none 4 0,
    .delete 8, .delFromBack, .addToBack (some 8) 5 0, .delFromFront, .deleteAll, .delFromBack,
    .addToBack (some 16) 6 2]

theorem dyna_isList_sampleOps :
    ∃ s, execAll 12 dynaCreate sampleOps = some (s, [.failed, .done, .done, .done, .failed, .done,
      .removed 2 1, .done, .removed 3 0, .done, .failed, .done]) ∧ IsList s [⟨16, 6, 2⟩] :=
  dyna_isList (by decide) (by decide)

end WebTester.Dynastruc
