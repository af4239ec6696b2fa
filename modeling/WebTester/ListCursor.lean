import WebTester.Belts
import WebTester.Blacklist
import WebTester.Dynastruc

/-!
# The search cursor and the clients of the lists

A search leaves a cursor in the list and the next one goes on behind it. `dyna_delete` releases the
node without a look at the cursor. A node that was released can neither be read nor written, as in
`Dynastruc`.
-/
namespace WebTester.ListCursor
open CString Dynastruc

variable {δ : Type}

/-- `dynastruc_t` with its field `find_data`. -/
structure Searchable (δ : Type) where
  dyna : Dyna δ
  findData : Option ℕ

/-- Does `dyna_search` stop here? A comparator may be left out. -/
def hit (comparator : Option (δ → Bool)) (tag : ℤ) (data : δ) (itemTag : ℤ) : Bool :=
  itemTag = tag && comparator.all (· data)

/-- The loop of `dyna_search`, for at most so many nodes. -/
def searchFrom (comparator : Option (δ → Bool)) (tag : ℤ) (s : Dyna δ) :
    ℕ → Option ℕ → Option (Option ℕ)
  | _, none => some none
  | 0, some _ => none
  | n + 1, some a => do
    let item ← s.heap a
    if hit comparator tag item.data item.tag then some (some a)
    else searchFrom comparator tag s n item.nextPtr

namespace Searchable

/-- `dyna_search_reset`. -/
def searchReset (s : Searchable δ) : Searchable δ := { s with findData := none }

/-- `dyna_search`: the node that it finds becomes the cursor. -/
def search (s : Searchable δ) (comparator : Option (δ → Bool)) (tag : ℤ) :
    Option (Searchable δ × Option ℕ) := do
  let start ← match s.findData with
    | none => some s.dyna.head
    | some a => (s.dyna.heap a).map Item.nextPtr
  let found ← searchFrom comparator tag s.dyna s.dyna.count.toNat start
  some ({ s with findData := found }, found)

/-- `dyna_delete`, which does nothing with `NULL`. -/
def delete (s : Searchable δ) : Option ℕ → Option (Searchable δ)
  | none => some s
  | some a => (s.dyna.dynaDelete a).map fun dyna => { s with dyna := dyna }

/-- The cursor is `NULL` or a node of the list. -/
def CursorLive (s : Searchable δ) : Prop := ∀ a, s.findData = some a → (s.dyna.heap a).isSome

end Searchable

/-! ## Public operations -/

inductive Op (δ : Type)
  | list (op : Dynastruc.Op δ)
  | searchReset
  | search (comparator : Option (δ → Bool)) (tag : ℤ)

namespace Op

/-- One operation. A list has `count` nodes. -/
def exec (s : Searchable δ) : Op δ → Option (Searchable δ)
  | list op => (op.exec s.dyna.count.toNat s.dyna).map fun r => { s with dyna := r.1 }
  | searchReset => some s.searchReset
  | search comparator tag => (s.search comparator tag).map Prod.fst

/-- `malloc` gives an address that is not in use, and only a node of the list is deleted. -/
def Legal (s : Dyna δ) : Op δ → Prop
  | list (.push (some a) _ _) | list (.addToBack (some a) _ _) => s.heap a = none
  | list (.delete a) => (s.heap a).isSome
  | list (.push none _ _) | list (.addToBack none _ _) | list .pop | list .delFromFront
  | list .delFromBack | list .deleteAll | searchReset | search _ _ => True

/-- The operation deletes the node at `a`. -/
def Deletes (s : Dyna δ) (a : ℕ) : Op δ → Prop
  | list .pop | list .delFromFront => s.head = some a
  | list .delFromBack => s.tail = some a
  | list (.delete b) => b = a
  | list .deleteAll => (s.heap a).isSome
  | list (.push _ _ _) | list (.addToBack _ _ _) | searchReset | search _ _ => False

/-- The cursor does not stand on a node that the operation deletes. -/
def Careful (s : Searchable δ) (op : Op δ) : Prop :=
  ∀ a, s.findData = some a → ¬op.Deletes s.dyna a

end Op

/-- No legal operation of the run reads a released node, and whenever one returns the cursor is
live. -/
def CursorSafe : Searchable δ → List (Op δ) → Prop
  | s, [] => s.CursorLive
  | s, op :: ops => s.CursorLive ∧ (op.Legal s.dyna → ∃ t, op.exec s = some t ∧ CursorSafe t ops)

/-- No legal operation of the run deletes the node under the cursor. -/
def CarefulRun : Searchable δ → List (Op δ) → Prop
  | _, [] => True
  | s, op :: ops => op.Legal s.dyna → op.Careful s ∧ ∀ t, op.exec s = some t → CarefulRun t ops

/-! ## The clients -/

/-- `unblacklist_ip`, with at most so many searches. -/
def unblacklistIp (ip : CStr) : ℕ → Searchable Blacklist.Item → Option (Searchable Blacklist.Item)
  | 0, _ => none
  | n + 1, s => do
    let (s, item) ← s.search (some fun item => item.ip = ip) 0
    let s ← s.delete item
    if item.isSome then unblacklistIp ip n s else some s

/-- The lists that `belts_fill` works on, with the records of the tasks. -/
structure Lists where
  mem : ℕ → Task
  queue : Dyna ℕ
  belts : Searchable ℕ

/-- `wt_task_in_belts`. -/
def wtTaskInBelts (s : Lists) (p : ℕ) : Option (Lists × Bool) := do
  let (belts, item) ←
    s.belts.searchReset.search (some fun q => (s.mem q).key = (s.mem p).key) 0
  some ({ s with belts := belts }, item.isSome)

/-- `belts_fill` from the node `cur` on, for at most so many nodes; `malloc` gives the address of a
new node for a task. The link of a node is read after the node was deleted. -/
def beltsFill (cfg : Belts.Config) (a : Belts.Answers) (malloc : ℕ → Option ℕ) :
    ℕ → Option ℕ → Lists → Option Lists
  | _, none, s => some s
  | 0, some _, s => if cfg.beltsSize ≤ s.belts.dyna.count then some s else none
  | n + 1, some cur, s =>
    if cfg.beltsSize ≤ s.belts.dyna.count then some s
    else do
      let item ← s.queue.heap cur
      let p := item.data
      let s := { s with queue := ← s.queue.dynaDelete cur }
      let cur := (← s.queue.heap cur).nextPtr
      let (s, inBelts) ← wtTaskInBelts s p
      if inBelts then beltsFill cfg a malloc n cur s
      else
        let r := (s.mem p).sendForTesting (a.replied p) (a.start p 0)
        let s := { s with mem := Function.update s.mem p r.2 }
        if r.1 then do
          let (dyna, _) ← s.belts.dyna.dynaAddToBack (malloc p) p 0
          beltsFill cfg a malloc n cur { s with belts := { s.belts with dyna := dyna } }
        else if r.2.keepInQueue then do
          let (queue, _) ← s.queue.dynaPush (malloc p) p 0
          beltsFill cfg a malloc n cur { s with queue := queue }
        else beltsFill cfg a malloc n cur s

/-! ## Searching -/

section search

variable {s : Dyna δ} {l l₁ l₂ : List (Cell δ)} {c : Cell δ}

lemma isSome_iff (h : Represents s l) (a : ℕ) : (s.heap a).isSome ↔ a ∈ l.map Cell.addr :=
  h.isList.allocated a

lemma heap_eq_none (h : Represents s l) {a : ℕ} (ha : a ∉ l.map Cell.addr) : s.heap a = none := by
  rw [← isSome_iff h, Bool.not_eq_true, Option.isSome_eq_false_iff, Option.isNone_iff_eq_none] at ha
  exact ha

/-- What a node of the list holds, and the node behind it. -/
lemma exists_cell (h : Represents s (l₁ ++ c :: l₂)) : ∃ item, s.heap c.addr = some item ∧
    item.data = c.data ∧ item.tag = c.tag ∧ item.nextPtr = (l₂.map Cell.addr).head? := by
  obtain ⟨item, hitem, hnext, -, hvalue⟩ := exists_item (h.holds.value c (by simp))
  obtain ⟨hdata, htag⟩ := Prod.mk.inj hvalue
  exact ⟨item, hitem, hdata, htag, hnext.trans h.holds.next_eq⟩

variable (comparator : Option (δ → Bool)) (tag : ℤ)

/-- The first of these cells that a search stops at. -/
def firstHit (l : List (Cell δ)) : Option ℕ :=
  (l.find? fun c => hit comparator tag c.data c.tag).map Cell.addr

lemma searchFrom_eq (h : Represents s (l₁ ++ l₂)) {n : ℕ} (hn : l₂.length ≤ n) :
    searchFrom comparator tag s n (l₂.map Cell.addr).head? = some (firstHit comparator tag l₂) := by
  induction l₂ generalizing l₁ n with
  | nil => cases n <;> rfl
  | cons c l₂ ih =>
    obtain ⟨n, rfl⟩ : ∃ m, n = m + 1 := ⟨n - 1, by rw [List.length_cons] at hn; omega⟩
    obtain ⟨item, hitem, hdata, htag, hnext⟩ := exists_cell h
    have happ : l₁ ++ c :: l₂ = (l₁ ++ [c]) ++ l₂ := by simp
    rw [happ] at h
    have hrest := ih h (Nat.le_of_succ_le_succ hn)
    rw [List.map_cons, List.head?_cons, searchFrom, hitem, Option.bind_eq_bind, Option.bind_some,
      hdata, htag, hnext, firstHit, List.find?_cons]
    cases hhit : hit comparator tag c.data c.tag with
    | true => simp
    | false => simpa [firstHit] using hrest

lemma mem_of_firstHit {a : ℕ} (h : firstHit comparator tag l = some a) : a ∈ l.map Cell.addr := by
  obtain ⟨c, hc, rfl⟩ := Option.map_eq_some_iff.1 h
  exact List.mem_map_of_mem (List.mem_of_find?_eq_some hc)

/-- The cells that a search goes through: those behind the cursor, or all of them. -/
structure Behind (s : Searchable δ) (l l₁ l₂ : List (Cell δ)) : Prop where
  split : l = l₁ ++ l₂
  cursor : s.findData = l₁.getLast?.map Cell.addr

lemma exists_behind {s : Searchable δ} (h : Represents s.dyna l) (hlive : s.CursorLive) :
    ∃ l₁ l₂, Behind s l l₁ l₂ := by
  cases hcursor : s.findData with
  | none => exact ⟨[], l, rfl, hcursor⟩
  | some a =>
    obtain ⟨c, hc, rfl⟩ := List.mem_map.1 ((isSome_iff h a).1 (hlive a hcursor))
    obtain ⟨l₁, l₂, rfl⟩ := List.append_of_mem hc
    exact ⟨l₁ ++ [c], l₂, by simp, by simp [hcursor]⟩

lemma search_eq {s : Searchable δ} (h : Represents s.dyna l) (hbehind : Behind s l l₁ l₂) :
    s.search comparator tag = some ({ s with findData := firstHit comparator tag l₂ },
      firstHit comparator tag l₂) := by
  obtain ⟨rfl, hcursor⟩ := hbehind
  have hcount : l₂.length ≤ s.dyna.count.toNat := by
    rw [h.count, List.length_append]
    omega
  have hfrom := searchFrom_eq comparator tag h hcount
  rcases List.eq_nil_or_concat' l₁ with rfl | ⟨l₁, c, rfl⟩
  · have hnone : s.findData = none := hcursor
    rw [Searchable.search, hnone]
    rw [show (l₂.map Cell.addr).head? = s.dyna.head from h.head.symm] at hfrom
    simp [hfrom]
  · have hsome : s.findData = some c.addr := by simpa using hcursor
    have happ : l₁ ++ [c] ++ l₂ = l₁ ++ c :: l₂ := by simp
    obtain ⟨item, hitem, -, -, hnext⟩ := exists_cell (happ ▸ h)
    rw [← hnext] at hfrom
    simp [Searchable.search, hsome, hitem, hfrom]

end search

/-! ## The blacklist -/

section blacklist

variable {s : Searchable Blacklist.Item} {l : List (Cell Blacklist.Item)} {ip : CStr}

lemma firstHit_eq_none_iff (htag : ∀ c ∈ l, c.tag = 0) :
    firstHit (some fun item => item.ip = ip) 0 l = none ↔ ∀ c ∈ l, c.data.ip ≠ ip := by
  rw [firstHit, Option.map_eq_none_iff, List.find?_eq_none]
  refine forall₂_congr fun c hc => ?_
  simp [hit, htag c hc]

/-- The search after a deletion goes on behind the deleted node. -/
lemma unblacklistIp_eq_none {a : ℕ} {t : Searchable Blacklist.Item} (ht : t.findData = some a)
    (hgone : t.dyna.heap a = none) (n : ℕ) : unblacklistIp ip n t = none := by
  cases n with
  | zero => rfl
  | succ n => simp [unblacklistIp, Searchable.search, ht, hgone]

/-- After a hit the node is deleted, and the next search starts from it. -/
lemma unblacklistIp_of_hit (h : Represents s.dyna l) {a : ℕ}
    (hsearch : s.search (some fun item => item.ip = ip) 0 =
      some ({ s with findData := some a }, some a)) (ha : a ∈ l.map Cell.addr) (n : ℕ) :
    unblacklistIp ip n s = none := by
  obtain ⟨c, hc, rfl⟩ := List.mem_map.1 ha
  obtain ⟨k₁, k₂, rfl⟩ := List.append_of_mem hc
  obtain ⟨u, hu, hrep⟩ := h.delete
  have hnot : c.addr ∉ (k₁ ++ k₂).map Cell.addr := by
    rw [List.map_append, List.mem_append, not_or]
    exact h.holds.notMem
  cases n with
  | zero => rfl
  | succ n =>
    have hnone := @unblacklistIp_eq_none ip c.addr ⟨u, some c.addr⟩ rfl (heap_eq_none hrep hnot) n
    simp [unblacklistIp, hsearch, Searchable.delete, hu, hnone]

/-- The entries of an address are removed, with no look at a released node, if and only if there
are none. -/
lemma unblacklistIp_iff (h : Represents s.dyna l) (hlive : s.CursorLive)
    (htag : ∀ c ∈ l, c.tag = 0) :
    (∃ n t, unblacklistIp ip n s = some t ∧
      Represents t.dyna (l.filter fun c => c.data.ip ≠ ip)) ↔ ∀ c ∈ l, c.data.ip ≠ ip := by
  obtain ⟨l₁, l₂, hbehind⟩ := exists_behind h hlive
  have hsearch := search_eq (some fun item => item.ip = ip) 0 h hbehind
  have htag₂ : ∀ c ∈ l₂, c.tag = 0 := fun c hc => htag c (by simp [hbehind.split, hc])
  constructor
  · rintro ⟨n, t, ht, hrep⟩
    cases hfound : firstHit (some fun item => item.ip = ip) 0 l₂ with
    | none =>
      cases n with
      | zero => cases ht
      | succ n =>
        rw [hfound] at hsearch
        obtain rfl : { s with findData := none } = t := by
          simpa [unblacklistIp, hsearch, Searchable.delete] using ht
        have hlength : l.length = (l.filter fun c => c.data.ip ≠ ip).length := by
          have hcount := h.count.symm.trans hrep.count
          exact_mod_cast hcount
        have hfilter := List.filter_sublist.eq_of_length hlength.symm
        rw [List.filter_eq_self] at hfilter
        exact fun c hc => by simpa using hfilter c hc
    | some a =>
      have hmem : a ∈ l.map Cell.addr := by
        rw [hbehind.split, List.map_append]
        exact List.mem_append_right _ (mem_of_firstHit _ _ hfound)
      rw [hfound] at hsearch
      rw [unblacklistIp_of_hit h hsearch hmem n] at ht
      cases ht
  · intro hall
    have hnone := (firstHit_eq_none_iff htag₂).2 fun c hc => hall c (by simp [hbehind.split, hc])
    rw [hnone] at hsearch
    refine ⟨1, { s with findData := none }, by simp [unblacklistIp, hsearch, Searchable.delete], ?_⟩
    have hfilter : (l.filter fun c => c.data.ip ≠ ip) = l :=
      List.filter_eq_self.2 fun c hc => decide_eq_true (hall c hc)
    rw [hfilter]
    exact h

end blacklist

/-! ## The belts -/

/-- The belts are filled with no look at a released node if and only if there is nothing to do. -/
lemma beltsFill_iff (cfg : Belts.Config) (a : Belts.Answers) (malloc : ℕ → Option ℕ) {s : Lists}
    {l : List (Cell ℕ)} (h : Represents s.queue l) (n : ℕ) :
    (beltsFill cfg a malloc (n + 1) s.queue.head s).isSome ↔
      l = [] ∨ cfg.beltsSize ≤ s.belts.dyna.count := by
  cases l with
  | nil =>
    have hhead : s.queue.head = none := h.head
    simp [hhead, beltsFill]
  | cons c l =>
    have hhead : s.queue.head = some c.addr := h.head
    obtain ⟨item, hitem, -⟩ := @exists_cell _ _ [] l c h
    obtain ⟨t, ht, hrep⟩ := @Represents.delete _ _ [] l c h
    have hgone : t.heap c.addr = none := heap_eq_none hrep (@Holds.notMem _ _ [] l c h.holds).2
    rw [hhead, beltsFill]
    by_cases hfull : cfg.beltsSize ≤ s.belts.dyna.count
    · simp [hfull]
    · simp [hfull, hitem, ht, hgone]

/-! ## The cursor over a run -/

section run

variable {s : Searchable δ} {l : List (Cell δ)}

lemma mem_rest_iff {as : List ℕ} {a b : ℕ} (hb : b ∉ as) (ha : a = b ∨ a ∈ as) :
    a ∈ as ↔ b ≠ a := by
  constructor
  · rintro hmem rfl
    exact hb hmem
  · intro hne
    exact ha.resolve_left fun heq => hne heq.symm

/-- A node stays in the list unless it is the first. -/
lemma mem_pop_iff {s : Dyna δ} (h : Represents s l) {a : ℕ} (ha : a ∈ l.map Cell.addr) :
    a ∈ ((Dynastruc.Op.pop : Dynastruc.Op δ).onList l).1.map Cell.addr ↔ s.head ≠ some a := by
  have hnodup := h.isList.nodup
  cases l with
  | nil => simp at ha
  | cons c l =>
    rw [List.map_cons, List.nodup_cons] at hnodup
    rw [List.map_cons, List.mem_cons] at ha
    rw [h.head, List.map_cons, List.head?_cons, ne_eq, Option.some_inj]
    exact mem_rest_iff hnodup.1 ha

/-- A node stays in the list unless it is the last. -/
lemma mem_delFromBack_iff {s : Dyna δ} (h : Represents s l) {a : ℕ} (ha : a ∈ l.map Cell.addr) :
    a ∈ ((Dynastruc.Op.delFromBack : Dynastruc.Op δ).onList l).1.map Cell.addr ↔
      s.tail ≠ some a := by
  have hnodup := h.isList.nodup
  rcases List.eq_nil_or_concat' l with rfl | ⟨l, c, rfl⟩
  · simp at ha
  · have htail : s.tail = some c.addr := by simpa using h.tail
    have hlast : ((Dynastruc.Op.delFromBack : Dynastruc.Op δ).onList (l ++ [c])).1 = l := by
      simp [Dynastruc.Op.onList]
    rw [List.map_append, List.map_singleton] at hnodup ha
    rw [← List.concat_eq_append, List.nodup_concat] at hnodup
    rw [List.mem_append, List.mem_singleton] at ha
    rw [hlast, htail, ne_eq, Option.some_inj]
    exact mem_rest_iff hnodup.1 ha.symm

/-- A node stays in the list unless the operation deletes it. -/
lemma mem_onList_iff {s : Dyna δ} (h : Represents s l) {a : ℕ} (ha : a ∈ l.map Cell.addr)
    (op : Dynastruc.Op δ) : a ∈ (op.onList l).1.map Cell.addr ↔ ¬(Op.list op).Deletes s a := by
  cases op with
  | push malloc data tag =>
    cases malloc <;> simp [Dynastruc.Op.onList, Op.Deletes, ha]
  | addToBack malloc data tag =>
    cases malloc <;> simp [Dynastruc.Op.onList, Op.Deletes, ha]
  | pop => exact mem_pop_iff h ha
  | delFromFront => exact mem_pop_iff h ha
  | delFromBack => exact mem_delFromBack_iff h ha
  | delete b =>
    obtain ⟨c, hc, rfl⟩ := List.mem_map.1 ha
    show c.addr ∈ (l.filter fun c => c.addr ≠ b).map Cell.addr ↔ ¬b = c.addr
    constructor
    · rintro hmem rfl
      obtain ⟨d, hd, heq⟩ := List.mem_map.1 hmem
      exact of_decide_eq_true (List.mem_filter.1 hd).2 heq
    · intro hne
      have hkept : c ∈ l.filter fun c => c.addr ≠ b :=
        List.mem_filter.2 ⟨hc, decide_eq_true fun heq => hne heq.symm⟩
      exact List.mem_map_of_mem hkept
  | deleteAll => simp [Dynastruc.Op.onList, Op.Deletes, (isSome_iff h a).2 ha]

lemma legal_list_iff {s : Dyna δ} (h : Represents s l) (op : Dynastruc.Op δ) :
    (Op.list op).Legal s ↔ op.Legal l := by
  have hfree : ∀ a, s.heap a = none ↔ a ∉ l.map Cell.addr := by
    intro a
    rw [← isSome_iff h, Bool.not_eq_true, Option.isSome_eq_false_iff, Option.isNone_iff_eq_none]
  cases op with
  | push malloc data tag =>
    cases malloc with
    | none => exact Iff.rfl
    | some a => exact hfree a
  | addToBack malloc data tag =>
    cases malloc with
    | none => exact Iff.rfl
    | some a => exact hfree a
  | delete a => exact isSome_iff h a
  | pop | delFromFront | delFromBack | deleteAll => exact Iff.rfl

/-- A legal operation goes through from a live cursor, and leaves a live one if and only if it does
not delete the node under it. -/
lemma exec_spec (h : Represents s.dyna l) (hlive : s.CursorLive) {op : Op δ}
    (hop : op.Legal s.dyna) : ∃ t l', op.exec s = some t ∧ Represents t.dyna l' ∧
      (t.CursorLive ↔ op.Careful s) := by
  cases op with
  | list op =>
    have hcount : l.length ≤ s.dyna.count.toNat := by
      rw [h.count]
      omega
    obtain ⟨t, ht, hrep⟩ := h.step ((legal_list_iff h op).1 hop) hcount
    refine ⟨{ s with dyna := t }, (op.onList l).1, by simp [Op.exec, ht], hrep, ?_⟩
    refine forall₂_congr fun a ha => ?_
    rw [isSome_iff hrep]
    exact mem_onList_iff h ((isSome_iff h a).1 (hlive a ha)) op
  | searchReset =>
    refine ⟨s.searchReset, l, rfl, h, ?_⟩
    have hreset : s.searchReset.CursorLive := fun a ha => nomatch ha
    exact iff_of_true hreset fun a _ => not_false
  | search comparator tag =>
    obtain ⟨l₁, l₂, hbehind⟩ := exists_behind h hlive
    refine ⟨{ s with findData := firstHit comparator tag l₂ }, l,
      by simp [Op.exec, search_eq comparator tag h hbehind], h, ?_⟩
    refine iff_of_true (fun a ha => ?_) fun a _ => not_false
    rw [isSome_iff h, hbehind.split, List.map_append]
    exact List.mem_append_right _ (mem_of_firstHit comparator tag ha)

lemma CursorSafe.live {ops : List (Op δ)} (h : CursorSafe s ops) : s.CursorLive := by
  cases ops with
  | nil => exact h
  | cons op ops => exact h.1

lemma cursorSafe_iff (h : Represents s.dyna l) (hlive : s.CursorLive) (ops : List (Op δ)) :
    CursorSafe s ops ↔ CarefulRun s ops := by
  induction ops generalizing s l with
  | nil => exact iff_of_true hlive trivial
  | cons op ops ih =>
    rw [CursorSafe, CarefulRun]
    refine (and_iff_right hlive).trans (imp_congr_right fun hop => ?_)
    obtain ⟨t, l', ht, hrep, hcursor⟩ := exec_spec h hlive hop
    constructor
    · rintro ⟨u, hu, hsafe⟩
      obtain rfl : t = u := Option.some.inj (ht.symm.trans hu)
      refine ⟨hcursor.1 hsafe.live, fun u hu => ?_⟩
      obtain rfl : t = u := Option.some.inj (ht.symm.trans hu)
      exact (ih hrep hsafe.live).1 hsafe
    · rintro ⟨hcareful, hrest⟩
      exact ⟨t, ht, (ih hrep (hcursor.2 hcareful)).2 (hrest t ht)⟩

end run

/-- No client looks at a released node exactly when `belts_fill` has nothing to take or no room for
it, when the blacklist has no entry with the address, and when no operation of the run deletes the
node under the cursor. -/
theorem follows_no_deleted_iff :
    (∀ (cfg : Belts.Config) (a : Belts.Answers) (malloc : ℕ → Option ℕ) (s : Lists)
      (l : List (Cell ℕ)), Represents s.queue l → ∀ n,
      ((beltsFill cfg a malloc (n + 1) s.queue.head s).isSome ↔
        l = [] ∨ cfg.beltsSize ≤ s.belts.dyna.count)) ∧
    (∀ (ip : CStr) (s : Searchable Blacklist.Item) (l : List (Cell Blacklist.Item)),
      Represents s.dyna l → s.CursorLive → (∀ c ∈ l, c.tag = 0) →
      ((∃ n t, unblacklistIp ip n s = some t ∧
        Represents t.dyna (l.filter fun c => c.data.ip ≠ ip)) ↔ ∀ c ∈ l, c.data.ip ≠ ip)) ∧
    ∀ ops : List (Op δ), CursorSafe ⟨dynaCreate, none⟩ ops ↔ CarefulRun ⟨dynaCreate, none⟩ ops := by
  refine ⟨fun cfg a malloc s l h n => beltsFill_iff cfg a malloc h n,
    fun ip s l h hlive htag => unblacklistIp_iff h hlive htag, fun ops => ?_⟩
  exact @cursorSafe_iff _ ⟨dynaCreate, none⟩ _ Represents.create (fun a ha => nomatch ha) ops

/-- A list of one node. -/
def oneNode (a : ℕ) (data : δ) : Dyna δ :=
  ⟨Function.update (fun _ => none) a (some ⟨data, 0, none, none⟩), some a, some a, 1⟩

lemma oneNode_represents (a : ℕ) (data : δ) : Represents (oneNode a data) [⟨a, data, 0⟩] := by
  obtain ⟨t, ht, hrep⟩ := Represents.create.push (List.not_mem_nil : a ∉ _) data 0
  obtain rfl : oneNode a data = t := congrArg Prod.fst (Option.some.inj ht)
  exact hrep

/-- An entry of the blacklist. -/
def sampleEntry : Blacklist.Item := ⟨['7', '.', '1'], 0, by decide⟩

/-- A library that starts every task. -/
def sampleAnswers : Belts.Answers := ⟨fun _ => true, fun _ _ => .started, fun _ => true⟩

/-- A queue of one task, over belts of this size. -/
def sampleLists (beltsSize : ℕ) : Lists where
  mem := Belts.initial.mem
  queue := oneNode 8 3
  belts := ⟨{ (dynaCreate : Dyna ℕ) with count := beltsSize }, none⟩

/-- The node is found, the search goes on behind it, and then the node is deleted. -/
def sampleOps : List (Op ℕ) :=
  [.list (.push (some 8) 5 0), .search none 0, .search none 0, .list (.delete 8)]

theorem follows_no_deleted_iff_samples :
    (beltsFill (Belts.readConfig 0 0) sampleAnswers some 1 (some 8) (sampleLists 4)).isSome ∧
    (∃ n t, unblacklistIp ['8'] n ⟨oneNode 8 sampleEntry, none⟩ = some t ∧
      Represents t.dyna [⟨8, sampleEntry, 0⟩]) ∧
    CursorSafe ⟨dynaCreate, none⟩ sampleOps := by
  have hclients := @follows_no_deleted_iff ℕ
  refine ⟨?_, ?_, (hclients.2.2 sampleOps).2 ?_⟩
  · exact (hclients.1 (Belts.readConfig 0 0) sampleAnswers some (sampleLists 4) _
      (oneNode_represents 8 3) 0).2 (.inr le_rfl)
  · have hother : ∀ c ∈ [(⟨8, sampleEntry, 0⟩ : Cell Blacklist.Item)], c.data.ip ≠ ['8'] := by
      decide
    exact (hclients.2.1 ['8'] ⟨oneNode 8 sampleEntry, none⟩ _ (oneNode_represents 8 sampleEntry)
      (fun a ha => nomatch ha) (by simp)).2 hother
  · intro _
    refine ⟨fun a ha => (nomatch ha), fun s hs => ?_⟩
    obtain rfl := Option.some.inj hs
    intro _
    refine ⟨fun a _ => not_false, fun s hs => ?_⟩
    obtain rfl := Option.some.inj hs
    intro _
    refine ⟨fun a _ => not_false, fun s hs => ?_⟩
    obtain rfl := Option.some.inj hs
    exact fun _ => ⟨fun a ha => (nomatch ha), fun _ _ => trivial⟩

/-- A task in the queue and room in the belts; an entry of the address; the deletion of the node
that was found. -/
theorem clients_follow_deleted :
    beltsFill (Belts.readConfig 0 0) sampleAnswers some 5 (some 8) (sampleLists 0) = none ∧
    (∀ n, unblacklistIp ['7', '.', '1'] n ⟨oneNode 8 sampleEntry, none⟩ = none) ∧
    ¬CursorSafe ⟨dynaCreate, none⟩ [.list (.push (some 8) 5 0), .search none 0,
      .list (.delete 8)] := by
  refine ⟨rfl, fun n => ?_, ?_⟩
  · cases n with
    | zero => rfl
    | succ n => exact @unblacklistIp_eq_none _ 8 _ rfl rfl n
  · rintro ⟨-, hpush⟩
    obtain ⟨s, hs, -, hsearch⟩ := hpush rfl
    obtain rfl := Option.some.inj hs
    obtain ⟨s, hs, -, hdelete⟩ := hsearch trivial
    obtain rfl := Option.some.inj hs
    obtain ⟨s, hs, hlive⟩ := hdelete rfl
    obtain rfl := Option.some.inj hs
    exact absurd (hlive 8 rfl) (by decide)

end WebTester.ListCursor
