import WebTester.Bubble
import WebTester.CString
import WebTester.Dynastruc

/-!
# Sorting a list in place

`dyna_sort` exchanges what neighbouring nodes hold and leaves the nodes where they are. It counts in
an `int`, while the length of a list is a `long`.
-/
namespace WebTester.DynaSort
open CString Dynastruc Bubble

variable {δ : Type}

/-- `swap`. -/
def swap (s : Dyna δ) (a b : ℕ) : Option (Dyna δ) := do
  let item ← s.heap a
  let other ← s.heap b
  let heap := Function.update s.heap a (some { item with data := other.data, tag := other.tag })
  let other ← heap b
  some { s with
    heap := Function.update heap b (some { other with data := item.data, tag := item.tag }) }

/-- The inner loop of `dyna_sort` from the node `cur` on. `NULL` has no data to compare. -/
def sortPass (comparator : δ → δ → ℤ) : ℕ → Option ℕ → Dyna δ → Option (Dyna δ)
  | 0, _, s => some s
  | j + 1, cur, s => do
    let a ← cur
    let item ← s.heap a
    let b ← item.nextPtr
    let other ← s.heap b
    let s ← if 0 < comparator item.data other.data then swap s a b else some s
    let item ← s.heap a
    sortPass comparator j item.nextPtr s

/-- The outer loop of `dyna_sort`, with inner loops of `m` iterations. -/
def sortLoop (comparator : δ → δ → ℤ) (m : ℕ) : ℕ → Dyna δ → Option (Dyna δ)
  | 0, s => some s
  | i + 1, s => do
    let s ← sortPass comparator m s.head s
    sortLoop comparator m i s

/-- The `int` in which `dyna_sort` has the length of a list; no loop is entered below zero. -/
def sortLength (count : ℤ) : ℕ := (toInt count).toNat

/-- `dyna_sort`. -/
def dynaSort (comparator : δ → δ → ℤ) (s : Dyna δ) : Option (Dyna δ) :=
  sortLoop comparator (sortLength s.count - 1) (sortLength s.count) s

/-! ## What stays and what is sorted -/

/-- The nodes, their links and the ends of the list are the same. -/
structure SameChain (s t : Dyna δ) : Prop where
  next : nextOf t.heap = nextOf s.heap
  prev : prevOf t.heap = prevOf s.heap
  allocated : ∀ a, (t.heap a).isSome = (s.heap a).isSome
  head : t.head = s.head
  tail : t.tail = s.tail
  count : t.count = s.count

namespace SameChain

variable {s t u : Dyna δ}

lemma refl (s : Dyna δ) : SameChain s s := ⟨rfl, rfl, fun _ => rfl, rfl, rfl, rfl⟩

lemma trans (h : SameChain s t) (h' : SameChain t u) : SameChain s u where
  next := h'.next.trans h.next
  prev := h'.prev.trans h.prev
  allocated a := (h'.allocated a).trans (h.allocated a)
  head := h'.head.trans h.head
  tail := h'.tail.trans h.tail
  count := h'.count.trans h.count

end SameChain

/-- What a node holds: data and tag. -/
def value (c : Cell δ) : δ × ℤ := (c.data, c.tag)

/-- The comparator sees only the data. -/
def onData (comparator : δ → δ → ℤ) (x y : δ × ℤ) : ℤ := comparator x.1 y.1

/-- The list `l` of `s` has become the list `l'` of `t`: the chain of nodes is the same, and what
they hold is in order, with ties in the order they had. -/
structure StablySorted (comparator : δ → δ → ℤ) (s t : Dyna δ) (l l' : List (Cell δ)) : Prop where
  chain : SameChain s t
  represents : Represents t l'
  addr : l'.map Cell.addr = l.map Cell.addr
  perm : (l'.map value).Perm (l.map value)
  sorted : (l'.map value).Pairwise fun x y => onData comparator x y ≤ 0
  stable : ∀ x, (l'.map value).filter (fun y => onData comparator y x = 0) =
    (l.map value).filter fun y => onData comparator y x = 0

/-! ## The loops on the nodes -/

section loops

variable {s : Dyna δ} {l l₁ l₂ : List (Cell δ)} {c d : Cell δ} {comparator : δ → δ → ℤ}

/-- The same nodes with other values. -/
lemma represents_of_sameChain (h : Represents s l) {t : Dyna δ} (hchain : SameChain s t)
    {l' : List (Cell δ)} (haddr : l'.map Cell.addr = l.map Cell.addr)
    (hvalue : ∀ c ∈ l', valueOf t.heap c.addr = some (value c)) : Represents t l' where
  holds := {
    forward := by
      rw [hchain.next, haddr]
      exact h.holds.forward
    backward := by
      rw [hchain.prev, haddr]
      exact h.holds.backward
    value := hvalue
    freed := by
      intro a ha
      have hnone := h.holds.freed a (haddr ▸ ha)
      rw [valueOf, Option.map_eq_none_iff, ← Option.not_isSome_iff_eq_none] at hnone ⊢
      rwa [hchain.allocated] }
  head := by rw [hchain.head, haddr, h.head]
  tail := by rw [hchain.tail, haddr, h.tail]
  count := by
    have hlength := congrArg List.length haddr
    rw [List.length_map, List.length_map] at hlength
    rw [hchain.count, h.count, hlength]

/-- An exchange changes what the two nodes hold, and nothing else. -/
lemma swap_eq {a b : ℕ} {x y : δ × ℤ} (hab : a ≠ b) (hx : valueOf s.heap a = some x)
    (hy : valueOf s.heap b = some y) :
    ∃ t, swap s a b = some t ∧ SameChain s t ∧
      valueOf t.heap =
        Function.update (Function.update (valueOf s.heap) a (some y)) b (some x) := by
  obtain ⟨item, hitem, hnext, hprev, rfl⟩ := exists_item hx
  obtain ⟨other, hother, hnext', hprev', rfl⟩ := exists_item hy
  obtain ⟨heap, hheap⟩ : ∃ heap, heap = Function.update (Function.update s.heap a
      (some { item with data := other.data, tag := other.tag })) b
      (some { other with data := item.data, tag := item.tag }) := ⟨_, rfl⟩
  refine ⟨{ s with heap := heap }, ?_, ⟨?_, ?_, fun c => ?_, rfl, rfl, rfl⟩, ?_⟩
  · simp [swap, hitem, hother, hab.symm, hheap]
  · rw [hheap, nextOf_update, nextOf_update, Option.bind_some, Option.bind_some, hnext, hnext',
      Function.update_eq_self, Function.update_eq_self]
  · rw [hheap, prevOf_update, prevOf_update, Option.bind_some, Option.bind_some, hprev, hprev',
      Function.update_eq_self, Function.update_eq_self]
  · by_cases hcb : c = b
    · simp [hheap, hcb, hother]
    · by_cases hca : c = a
      · simp [hheap, hca, hab, hitem]
      · simp [hheap, hcb, hca]
  · rw [hheap, valueOf_update, valueOf_update]
    rfl

/-- Two nodes exchange what they hold. -/
lemma swap_spec (h : Represents s (l₁ ++ c :: d :: l₂)) :
    ∃ t, swap s c.addr d.addr = some t ∧ SameChain s t ∧
      Represents t (l₁ ++ ⟨c.addr, d.data, d.tag⟩ :: ⟨d.addr, c.data, c.tag⟩ :: l₂) := by
  obtain ⟨hc₁, hc₂⟩ := h.holds.notMem
  have happ : l₁ ++ c :: d :: l₂ = (l₁ ++ [c]) ++ d :: l₂ := by simp
  obtain ⟨hd₁, hd₂⟩ := (happ ▸ h.holds).notMem
  rw [List.map_cons, List.mem_cons, not_or] at hc₂
  rw [List.map_append, List.mem_append, not_or] at hd₁
  obtain ⟨t, hswap, hchain, hvalueOf⟩ := swap_eq hc₂.1 (h.holds.value c (by simp))
    (h.holds.value d (by simp))
  refine ⟨t, hswap, hchain, represents_of_sameChain h hchain (by simp) fun b hb => ?_⟩
  have hkept : ∀ b, b ∈ l₁ ∨ b ∈ l₂ → valueOf t.heap b.addr = some (value b) := by
    intro b hb
    have hbc : b.addr ≠ c.addr := hb.elim (Holds.addr_ne hc₁) (Holds.addr_ne hc₂.2)
    have hbd : b.addr ≠ d.addr := hb.elim (Holds.addr_ne hd₁.1) (Holds.addr_ne hd₂)
    rw [hvalueOf, Function.update_of_ne hbd, Function.update_of_ne hbc]
    exact h.holds.value b (by grind)
  obtain hb | hb := List.mem_append.1 hb
  · exact hkept b (.inl hb)
  · obtain rfl | hb := List.mem_cons.1 hb
    · rw [hvalueOf, Function.update_of_ne hc₂.1, Function.update_self]
      rfl
    · obtain rfl | hb := List.mem_cons.1 hb
      · rw [hvalueOf, Function.update_self]
        rfl
      · exact hkept b (.inr hb)

/-- One turn of the inner loop leaves the smaller of two neighbours in front, and the pass goes on
with the second node. -/
lemma sortPass_step (comparator : δ → δ → ℤ) (h : Represents s (l₁ ++ c :: d :: l₂)) :
    ∃ t c' d', c'.addr = c.addr ∧ d'.addr = d.addr ∧ SameChain s t ∧
      Represents t (l₁ ++ c' :: d' :: l₂) ∧
      (∀ n, sortPass comparator (n + 1) (some c.addr) s =
        sortPass comparator n (some d.addr) t) ∧
      ∀ n l, pass (onData comparator) (n + 1) (value c :: value d :: l) =
        value c' :: pass (onData comparator) n (value d' :: l) := by
  obtain ⟨item, hitem, hnext, -, hvalue⟩ := exists_item (h.holds.value c (by simp))
  obtain ⟨other, hother, -, -, hvalue'⟩ := exists_item (h.holds.value d (by simp))
  obtain ⟨hdata, -⟩ := Prod.mk.inj hvalue
  obtain ⟨hdata', -⟩ := Prod.mk.inj hvalue'
  have hdaddr : item.nextPtr = some d.addr := hnext.trans h.holds.next_eq
  by_cases hgt : 0 < comparator c.data d.data
  · obtain ⟨t, hswap, hchain, hrep⟩ := swap_spec h
    -- the node is read again after the exchange, and its link is the same
    obtain ⟨item', hitem', hnext', -⟩ :=
      exists_item (hrep.holds.value ⟨c.addr, d.data, d.tag⟩ (by simp))
    have hdaddr' : item'.nextPtr = some d.addr := hnext'.trans hrep.holds.next_eq
    refine ⟨t, ⟨c.addr, d.data, d.tag⟩, ⟨d.addr, c.data, c.tag⟩, rfl, rfl, hchain, hrep,
      fun n => ?_, fun n l => if_pos hgt⟩
    simp [sortPass, hitem, hdaddr, hother, hdata, hdata', hgt, hswap, hitem', hdaddr']
  · refine ⟨s, c, d, rfl, rfl, .refl s, h, fun n => ?_, fun n l => if_neg hgt⟩
    simp [sortPass, hitem, hdaddr, hother, hdata, hdata', hgt]

/-- A pass over nodes is a pass over what they hold. -/
lemma sortPass_spec (comparator : δ → δ → ℤ) {n : ℕ} (h : Represents s (l₁ ++ l₂))
    (hn : n ≤ l₂.length - 1) :
    ∃ t l', sortPass comparator n (l₂.map Cell.addr).head? s = some t ∧ SameChain s t ∧
      Represents t (l₁ ++ l') ∧ l'.map Cell.addr = l₂.map Cell.addr ∧
      l'.map value = pass (onData comparator) n (l₂.map value) := by
  induction n generalizing s l₁ l₂ with
  | zero => exact ⟨s, l₂, rfl, .refl s, h, rfl, (pass_zero _).symm⟩
  | succ n ih =>
    match l₂ with
    | [] => simp at hn
    | [c] => simp at hn
    | c :: d :: l₂ =>
      rw [List.length_cons, List.length_cons] at hn
      obtain ⟨u, c', d', hc, hd, hchain, hu, hpass, hvalue⟩ := sortPass_step comparator h
      have happ : l₁ ++ c' :: d' :: l₂ = (l₁ ++ [c']) ++ d' :: l₂ := by simp
      obtain ⟨t, l', ht, hchain', hrep, haddr, hvalues⟩ := ih (happ ▸ hu) (by simpa using hn)
      refine ⟨t, c' :: l', ?_, hchain.trans hchain', by simpa using hrep, ?_, ?_⟩
      · rw [List.map_cons, List.head?_cons, hpass, ← hd]
        exact ht
      · rw [List.map_cons, haddr, List.map_cons, List.map_cons, List.map_cons, hc, hd]
      · rw [List.map_cons, hvalues, List.map_cons, List.map_cons, List.map_cons, hvalue]

lemma sortLoop_spec (comparator : δ → δ → ℤ) {m : ℕ} (hm : m ≤ l.length - 1) (n : ℕ)
    (h : Represents s l) :
    ∃ t l', sortLoop comparator m n s = some t ∧ SameChain s t ∧ Represents t l' ∧
      l'.map Cell.addr = l.map Cell.addr ∧
      l'.map value = (pass (onData comparator) m)^[n] (l.map value) := by
  induction n generalizing s l with
  | zero => exact ⟨s, l, rfl, .refl s, h, rfl, rfl⟩
  | succ n ih =>
    obtain ⟨u, l₁, hu, hchain₁, hrep₁, haddr₁, hvalue₁⟩ :=
      @sortPass_spec _ s [] l comparator m h hm
    have hlength : l₁.length = l.length := by simpa using congrArg List.length haddr₁
    obtain ⟨t, l', ht, hchain, hrep, haddr, hvalue⟩ := @ih u l₁ (hlength ▸ hm) hrep₁
    refine ⟨t, l', ?_, hchain₁.trans hchain, hrep, haddr.trans haddr₁, ?_⟩
    · rw [sortLoop, h.head, hu, Option.bind_eq_bind, Option.bind_some]
      exact ht
    · rw [hvalue, hvalue₁, Function.iterate_succ_apply]

lemma sortLength_le (n : ℕ) : sortLength n ≤ n := by
  have hle := toInt_le (Int.natCast_nonneg n)
  unfold sortLength
  omega

lemma sortLength_eq {n : ℕ} (hn : n < 2 ^ 31) : sortLength n = n := by
  unfold sortLength toInt
  rw [Int.bmod_eq_of_le (by omega) (by omega), Int.toNat_natCast]

/-- `dyna_sort` sorts what the first nodes hold, as many as the `int` says. -/
lemma dynaSort_spec (comparator : δ → δ → ℤ) (h : Represents s l) :
    ∃ t l', dynaSort comparator s = some t ∧ SameChain s t ∧ Represents t l' ∧
      l'.map Cell.addr = l.map Cell.addr ∧
      l'.map value = Bubble.sort (onData comparator) (sortLength l.length) (l.map value) := by
  have hle := sortLength_le l.length
  rw [dynaSort, h.count]
  exact sortLoop_spec comparator (by omega) _ h

end loops

/-! ## When the list comes out sorted -/

section result

variable {s t : Dyna δ} {l l₁ l₂ : List (Cell δ)} {comparator : δ → δ → ℤ}

/-- The nodes that are not counted are in order already, behind all that are. -/
def RestSorted (comparator : δ → δ → ℤ) (l : List (Cell δ)) : Prop :=
  ((l.drop (sortLength l.length)).Pairwise fun a b => comparator a.data b.data ≤ 0) ∧
  ∀ a ∈ l.take (sortLength l.length), ∀ b ∈ l.drop (sortLength l.length),
    comparator a.data b.data ≤ 0

lemma restSorted_of_length (h : l.length < 2 ^ 31) : RestSorted comparator l := by
  rw [RestSorted, sortLength_eq h, List.drop_length]
  exact ⟨List.Pairwise.nil, fun a _ b hb => absurd hb List.not_mem_nil⟩

/-- The values that the nodes of a list hold are read off the heap. -/
lemma map_value_eq (h₁ : Represents t l₁) (h₂ : Represents t l₂) :
    l₁.map value = l₂.map value := by
  have haddr := h₁.isList.forward.unique h₂.isList.forward
  have hvalues := h₁.isList.values.symm.trans (haddr ▸ h₂.isList.values)
  have hinj : Function.Injective (some : δ × ℤ → Option (δ × ℤ)) := fun _ _ => Option.some.inj
  refine List.map_injective_iff.2 hinj ?_
  rw [List.map_map, List.map_map]
  exact hvalues

lemma preorderOn_onData (h : PreorderOn comparator Set.univ) (s : Set (δ × ℤ)) :
    PreorderOn (onData comparator) s where
  swap x _ y _ := h.swap x.1 trivial y.1 trivial
  trans x _ y _ z _ := h.trans x.1 trivial y.1 trivial z.1 trivial

/-- What was sorted is in order as a whole if and only if the rest was. -/
lemma pairwise_sort_iff (h : PreorderOn comparator Set.univ) (l : List (Cell δ)) :
    ((Bubble.sort (onData comparator) (sortLength l.length) (l.map value)).Pairwise fun x y =>
      onData comparator x y ≤ 0) ↔ RestSorted comparator l := by
  have hle := sortLength_le l.length
  rw [RestSorted]
  generalize sortLength l.length = n at *
  have hlength : ((l.take n).map value).length = n := by simpa using hle
  have hsorted := sorted_sort (preorderOn_onData h {x | x ∈ (l.take n).map value})
  have hperm := @sort_perm _ (onData comparator) n ((l.take n).map value)
  have hsplit : l.map value = (l.take n).map value ++ (l.drop n).map value := by
    rw [← List.map_append, List.take_append_drop]
  rw [hlength] at hsorted
  rw [hsplit, sort_append hlength.ge, List.pairwise_append, and_iff_right hsorted,
    List.pairwise_map]
  refine and_congr Iff.rfl ?_
  constructor
  · intro hcross a ha b hb
    exact hcross (value a) (hperm.mem_iff.2 (List.mem_map_of_mem ha)) _ (List.mem_map_of_mem hb)
  · intro hcross x hx y hy
    obtain ⟨a, ha, rfl⟩ := List.mem_map.1 (hperm.mem_iff.1 hx)
    obtain ⟨b, hb, rfl⟩ := List.mem_map.1 hy
    exact hcross a ha b hb

lemma filter_sort_ties (h : PreorderOn comparator Set.univ) (n : ℕ) (values : List (δ × ℤ))
    (x : δ × ℤ) :
    (Bubble.sort (onData comparator) n values).filter (fun y => onData comparator y x = 0) =
      values.filter fun y => onData comparator y x = 0 := by
  have hunivs := preorderOn_onData h Set.univ
  refine filter_sort _ n values fun a _ b _ ha hb => ?_
  exact hunivs.not_gt_of_ties trivial trivial trivial (of_decide_eq_true ha) (of_decide_eq_true hb)

/-- A list is sorted in place, with ties in their order, exactly when the nodes that the `int` does
not count need no sorting. -/
theorem dynaSort_iff (comparator : δ → δ → ℤ) (hcmp : PreorderOn comparator Set.univ)
    (h : Represents s l) :
    (∃ t l', dynaSort comparator s = some t ∧ StablySorted comparator s t l l') ↔
      RestSorted comparator l := by
  obtain ⟨t, l', ht, hchain, hrep, haddr, hvalue⟩ := dynaSort_spec comparator h
  rw [← pairwise_sort_iff hcmp, ← hvalue]
  constructor
  · rintro ⟨u, l'', hu, hstable⟩
    obtain rfl : t = u := Option.some.inj (ht.symm.trans hu)
    rw [map_value_eq hrep hstable.represents]
    exact hstable.sorted
  · intro hsorted
    refine ⟨t, l', ht, hchain, hrep, haddr, ?_, hsorted, fun x => ?_⟩
    · rw [hvalue]
      exact sort_perm _ _
    · rw [hvalue]
      exact filter_sort_ties hcmp _ _ x

/-- Any cells with addresses of their own are a list. -/
lemma exists_represents (l : List (Cell δ)) (h : (l.map Cell.addr).Nodup) :
    ∃ s, Represents s l := by
  induction l with
  | nil => exact ⟨_, .create⟩
  | cons c l ih =>
    rw [List.map_cons, List.nodup_cons] at h
    obtain ⟨s, hs⟩ := ih h.2
    obtain ⟨t, -, ht⟩ := hs.push h.1 c.data c.tag
    exact ⟨t, ht⟩

/-- Numbers by their size. -/
def compareInts (a b : ℤ) : ℤ := (a - b).sign

lemma preorderOn_compareInts : PreorderOn compareInts Set.univ where
  swap a _ b _ := by
    rw [compareInts, compareInts, Int.sign_sign, Int.sign_sign, ← Int.sign_neg, Int.neg_sub]
  trans a _ b _ c _ := by
    simp only [compareInts, Int.sign_nonpos_iff]
    omega

/-- Two ties behind a greater number. -/
def sampleCells : List (Cell ℤ) := [⟨8, 2, 0⟩, ⟨16, 1, 5⟩, ⟨24, 1, 3⟩]

theorem dynaSort_iff_sampleCells : ∃ s t l', Represents s sampleCells ∧
    dynaSort compareInts s = some t ∧ StablySorted compareInts s t sampleCells l' := by
  obtain ⟨s, hs⟩ := exists_represents sampleCells (by decide)
  obtain ⟨t, l', ht⟩ := (dynaSort_iff compareInts preorderOn_compareInts hs).2
    (restSorted_of_length (by decide))
  exact ⟨s, t, l', hs, ht⟩

/-- So many numbers downwards. -/
def descending (n : ℕ) : List (Cell ℤ) := (List.range n).map fun i => ⟨i, -i, 0⟩

lemma descending_not_sorted {n : ℕ} (hn : 2 ≤ n) :
    ¬((descending n).map value).Pairwise fun x y => onData compareInts x y ≤ 0 := by
  obtain ⟨n, rfl⟩ : ∃ m, n = m + 2 := ⟨n - 2, by omega⟩
  rw [descending, List.range_succ_eq_map, List.range_succ_eq_map]
  intro hsorted
  have hfirst := List.rel_of_pairwise_cons hsorted List.mem_cons_self
  exact absurd hfirst (by decide)

/-- Nothing is sorted when the length of the list is not positive as an `int`. -/
lemma exists_unsorted {n : ℕ} (hn : 2 ≤ n) (hzero : sortLength n = 0) :
    ∃ s, Represents s (descending n) ∧ ¬∃ t l', dynaSort compareInts s = some t ∧
      StablySorted compareInts s t (descending n) l' := by
  have hnodup : ((descending n).map Cell.addr).Nodup := by
    rw [descending, List.map_map]
    exact List.nodup_range.map fun _ _ h => h
  obtain ⟨s, hs⟩ := exists_represents (descending n) hnodup
  refine ⟨s, hs, ?_⟩
  rintro ⟨t, l', ht, hstable⟩
  have hlength : (descending n).length = n := by simp [descending]
  obtain rfl : s = t := by
    rw [dynaSort, hs.count, hlength, hzero] at ht
    exact Option.some.inj ht
  refine descending_not_sorted hn ?_
  rw [map_value_eq hs hstable.represents]
  exact hstable.sorted

/-- The length of this list is negative as an `int`. -/
theorem long_list_is_not_sorted : ∃ s, Represents s (descending (2 ^ 31)) ∧
    ¬∃ t l', dynaSort compareInts s = some t ∧
      StablySorted compareInts s t (descending (2 ^ 31)) l' := by
  exact exists_unsorted (by decide) (by decide)

end result

end WebTester.DynaSort
