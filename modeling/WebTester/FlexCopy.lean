import WebTester.FlexRuns

/-!
# Copies of flexible values

What `flexval_dup` leaves of a value in the heap. A descriptor with those of its elements stands for
a tree of values; the copy stands for the same tree as long as its texts fit into the buffer that
they go through, and consists of descriptors that were not there before.
-/
namespace WebTester.FlexHeap
open CString Flexval

variable {F : Type}

/-! ## Values and their descriptors -/

mutual

/-- The descriptor stands for the value. What is not an array has no elements, whatever length an
array before it has left; an `int` counts the pointers of an array. -/
def Holds (h : Heap F) (a : ℕ) : FlexVal F → Prop
  | ⟨integer, real, pchar, type, length, data⟩ =>
    ∃ node, h.nodes a = some node ∧ node.integer = integer ∧ node.real = real ∧
      node.pchar = some pchar ∧ node.type = type ∧
      if type = .array then node.length = length ∧ length = data.length ∧ length + 1 < 2 ^ 31 ∧
        HoldsAll h node.elems data
      else length = 0 ∧ data = []

def HoldsAll (h : Heap F) : List ℕ → List (FlexVal F) → Prop
  | [], [] => True
  | e :: es, v :: vs => Holds h e v ∧ HoldsAll h es vs
  | _, _ => False

end

mutual

/-- Every text is shorter than the buffer of `flexval_set_string`. -/
def Short : FlexVal F → Prop
  | ⟨_, _, pchar, _, _, data⟩ => pchar.length < 65535 ∧ ShortAll data

def ShortAll : List (FlexVal F) → Prop
  | [] => True
  | v :: vs => Short v ∧ ShortAll vs

end

/-- The descriptors of a value: its own, and those of the elements of an array. -/
inductive Within (h : Heap F) : ℕ → ℕ → Prop
  | self (a : ℕ) : Within h a a
  | elem {a e b : ℕ} {node : Node F} : h.nodes a = some node → node.type = .array →
      e ∈ node.elems → Within h e b → Within h a b

/-- Addresses that were not given yet are free. -/
def Heap.Bounded (h : Heap F) : Prop := ∀ a node, h.nodes a = some node → a < h.next

variable {h h' h₁ h₂ : Heap F} {a b e p : ℕ} {es qs : List ℕ} {node : Node F} {v : FlexVal F}
  {vs : List (FlexVal F)}

/-! ## Other heaps -/

/-- Where the descriptors of a value are the same, no others are found. -/
lemma Within.congr (hb : Within h' a b)
    (hagree : ∀ b, Within h a b → h'.nodes b = h.nodes b) : Within h a b := by
  induction hb with
  | self a => exact .self a
  | elem ha harray he _ ih =>
    rw [hagree _ (.self _)] at ha
    exact .elem ha harray he (ih fun b hb => hagree b (.elem ha harray he hb))

mutual

/-- Only the descriptors of a value matter to what it says. -/
theorem Holds.congr : ∀ {a : ℕ} {v : FlexVal F}, Holds h a v →
    (∀ b, Within h a b → h'.nodes b = h.nodes b) → Holds h' a v
  | a, ⟨integer, real, pchar, type, length, data⟩, hv, hagree => by
    obtain ⟨node, ha, hinteger, hreal, hpchar, htype, helems⟩ := hv
    refine ⟨node, (hagree a (.self a)).trans ha, hinteger, hreal, hpchar, htype, ?_⟩
    split
    · next harray =>
      rw [if_pos harray] at helems
      obtain ⟨hlength, hcount, hshort, hall⟩ := helems
      refine ⟨hlength, hcount, hshort, hall.congr ?_⟩
      intro e he b hb
      exact hagree b (.elem ha (htype.trans harray) he hb)
    · next harray =>
      rw [if_neg harray] at helems
      exact helems

theorem HoldsAll.congr : ∀ {es : List ℕ} {vs : List (FlexVal F)}, HoldsAll h es vs →
    (∀ e ∈ es, ∀ b, Within h e b → h'.nodes b = h.nodes b) → HoldsAll h' es vs
  | [], [], _, _ => trivial
  | e :: es, v :: vs, hvs, hagree => by
    obtain ⟨hagree, hrest⟩ := List.forall_mem_cons.1 hagree
    exact ⟨hvs.1.congr hagree, hvs.2.congr hrest⟩

end

lemma HoldsAll.mem (hvs : HoldsAll h es vs) (he : e ∈ es) : ∃ v, Holds h e v := by
  induction es generalizing vs with
  | nil => cases he
  | cons e' es ih =>
    cases vs with
    | nil => exact hvs.elim
    | cons v vs =>
      obtain ⟨hv, hvs⟩ : Holds h e' v ∧ HoldsAll h es vs := hvs
      obtain rfl | he := List.mem_cons.1 he
      · exact ⟨v, hv⟩
      · exact ih hvs he

lemma HoldsAll.length_eq (hvs : HoldsAll h es vs) : es.length = vs.length := by
  induction es generalizing vs with
  | nil =>
    cases vs with
    | nil => rfl
    | cons v vs => exact hvs.elim
  | cons e es ih =>
    cases vs with
    | nil => exact hvs.elim
    | cons v vs => rw [List.length_cons, List.length_cons, ih hvs.2]

lemma exists_holdsAll (hall : ∀ e ∈ es, ∃ v, Holds h e v) : ∃ vs, HoldsAll h es vs := by
  induction es with
  | nil => exact ⟨[], trivial⟩
  | cons e es ih =>
    obtain ⟨⟨v, hv⟩, hall⟩ := List.forall_mem_cons.1 hall
    obtain ⟨vs, hvs⟩ := ih hall
    exact ⟨v :: vs, hv, hvs⟩

/-- All descriptors of a value are there. -/
lemma Holds.live (hb : Within h a b) (hv : Holds h a v) : ∃ node, h.nodes b = some node := by
  induction hb generalizing v with
  | self a =>
    obtain ⟨integer, real, pchar, type, length, data⟩ := v
    obtain ⟨node, ha, -⟩ := hv
    exact ⟨node, ha⟩
  | elem ha harray he _ ih =>
    obtain ⟨integer, real, pchar, type, length, data⟩ := v
    obtain ⟨node, ha', -, -, -, htype, helems⟩ := hv
    obtain rfl := Option.some.inj (ha.symm.trans ha')
    rw [if_pos (htype.symm.trans harray)] at helems
    obtain ⟨w, hw⟩ := helems.2.2.2.mem he
    exact ih hw

lemma Holds.within_lt (hbounded : h.Bounded) (hv : Holds h a v) (hb : Within h a b) :
    b < h.next := by
  obtain ⟨node, hnode⟩ := Holds.live hb hv
  exact hbounded b node hnode

/-- New addresses do not matter. -/
lemma Holds.extends (hbounded : h.Bounded) (hext : Extends h h') (hv : Holds h a v) :
    Holds h' a v :=
  hv.congr fun b hb => hext.nodes b (hv.within_lt hbounded hb)

/-- The descriptors of an old value are the same as before. -/
lemma Holds.within_iff (hbounded : h.Bounded) (hext : Extends h h') (hv : Holds h a v) :
    Within h' a b ↔ Within h a b := by
  have hagree : ∀ b, Within h a b → h'.nodes b = h.nodes b :=
    fun b hb => hext.nodes b (hv.within_lt hbounded hb)
  refine ⟨fun hb => hb.congr hagree, ?_⟩
  intro hb
  refine hb.congr fun c hc => ?_
  exact (hagree c (hc.congr hagree)).symm

namespace Heap.Bounded

lemma insert (hbounded : h.Bounded) (node : Node F) : (h.insert node).Bounded := by
  intro a n ha
  by_cases hnew : a = h.next
  · rw [hnew]
    exact Nat.lt_succ_self h.next
  · have hold : h.nodes a = some n := by
      rw [← ha]
      exact (Function.update_of_ne hnew ..).symm
    exact Nat.lt_succ_of_lt (hbounded a n hold)

lemma write (hbounded : h.Bounded) (hp : p < h.next) (node : Node F) :
    (h.write p node).Bounded := by
  intro a n ha
  by_cases hnew : a = p
  · rw [hnew]
    exact hp
  · rw [write_nodes_of_ne hnew] at ha
    exact hbounded a n ha

end Heap.Bounded

/-! ## The copy -/

/-- The descriptor stands for the value and consists of new descriptors only. -/
structure Copy (h h' : Heap F) (p : ℕ) (v : FlexVal F) : Prop where
  bounded : h'.Bounded
  extends_ : Extends h h'
  holds : Holds h' p v
  new : ∀ b, Within h' p b → h.next ≤ b

/-- The same of a list of them. -/
structure CopyAll (h h' : Heap F) (qs : List ℕ) (vs : List (FlexVal F)) : Prop where
  bounded : h'.Bounded
  extends_ : Extends h h'
  holds : HoldsAll h' qs vs
  new : ∀ q ∈ qs, ∀ b, Within h' q b → h.next ≤ b

lemma CopyAll.nil (hbounded : h.Bounded) : CopyAll h h [] [] :=
  ⟨hbounded, .refl h, trivial, fun _ hq => absurd hq List.not_mem_nil⟩

lemma Copy.cons {q : ℕ} (hq : Copy h h₁ q v) (hqs : CopyAll h₁ h₂ qs vs) :
    CopyAll h h₂ (q :: qs) (v :: vs) where
  bounded := hqs.bounded
  extends_ := hq.extends_.trans hqs.extends_
  holds := ⟨hq.holds.extends hq.bounded hqs.extends_, hqs.holds⟩
  new := by
    rw [List.forall_mem_cons]
    constructor
    · intro b hb
      exact hq.new b ((hq.holds.within_iff hq.bounded hqs.extends_).1 hb)
    · intro q' hq' b hb
      exact hq.extends_.next.trans (hqs.new q' hq' b hb)

variable {D : Doubles F}

lemma setText_pchar (s : CStr) (node : Node F) :
    (Node.setText D s node).pchar = some (FlexVal.bufferText s) := by
  unfold Node.setText
  dsimp only
  split_ifs <;> rfl

/-- The text of a copy has gone through the buffer. -/
lemma pchar_copyOf {s : CStr} (hpchar : node.pchar = some s) :
    (copyOf D node).pchar = some (FlexVal.bufferText s) := by
  unfold copyOf
  rw [hpchar]
  exact setText_pchar s _

/-- A value without elements. -/
lemma copy_leaf (hbounded : h.Bounded) {integer : ℤ} {real : F} {pchar : CStr} {type : FvType}
    (hinteger : node.integer = integer) (hreal : node.real = real)
    (hpchar : node.pchar = some pchar) (htype : node.type = type) (hleaf : type ≠ .array) :
    Copy h (h.insert (copyOf D node)) h.next
      ⟨integer, real, FlexVal.bufferText pchar, type, 0, []⟩ where
  bounded := hbounded.insert _
  extends_ := .insert h _
  holds := by
    refine ⟨copyOf D node, Heap.insert_nodes h _, hinteger, hreal, pchar_copyOf hpchar, htype, ?_⟩
    rw [if_neg hleaf]
    exact ⟨rfl, rfl⟩
  new := by
    intro b hb
    cases hb with
    | self => exact le_rfl
    | elem ha harray =>
      obtain rfl := Option.some.inj ((Heap.insert_nodes h _).symm.trans ha)
      exact absurd (htype.symm.trans harray) hleaf

/-- An array, after its elements were copied. -/
lemma copy_array (hqs : CopyAll (h.insert (copyOf D node)) h₂ qs vs) {integer : ℤ} {real : F}
    {pchar : CStr} (hinteger : node.integer = integer) (hreal : node.real = real)
    (hpchar : node.pchar = some pchar) (htype : node.type = .array)
    (hlength : node.length = vs.length) (hshort : vs.length + 1 < 2 ^ 31) :
    Copy h (h₂.write h.next { copyOf D node with length := node.length, data := some qs }) h.next
      ⟨integer, real, FlexVal.bufferText pchar, .array, vs.length, vs⟩ := by
  have hlt : h.next < h₂.next := hqs.extends_.next
  have hfar : ∀ q ∈ qs, ∀ b, Within h₂ q b → (h₂.write h.next
      { copyOf D node with length := node.length, data := some qs }).nodes b = h₂.nodes b := by
    intro q hq b hb
    have hne : b ≠ h.next := (Nat.lt_of_succ_le (hqs.new q hq b hb)).ne'
    exact Heap.write_nodes_of_ne hne _
  constructor
  · exact hqs.bounded.write hlt _
  · exact ((Extends.insert h _).trans hqs.extends_).write le_rfl _
  · refine ⟨_, Heap.write_nodes _ _ _, hinteger, hreal, pchar_copyOf hpchar, htype, ?_⟩
    rw [if_pos rfl]
    exact ⟨hlength, rfl, hshort, hqs.holds.congr hfar⟩
  · intro b hb
    cases hb with
    | self => exact le_rfl
    | elem ha harray he hb =>
      obtain rfl := Option.some.inj ((Heap.write_nodes _ _ _).symm.trans ha)
      have hold := hqs.new _ he b (hb.congr (hfar _ he))
      exact (Nat.le_succ h.next).trans hold

mutual

/-- A value is copied by as many nested calls as it is deep. -/
theorem flexvalDup_copy : ∀ {a : ℕ} {v : FlexVal F} {h₀ h : Heap F}, h₀.Bounded → h.Bounded →
    Extends h₀ h → Holds h₀ a v →
    ∃ h' p, (∃ n, ∀ fuel, n ≤ fuel → flexvalDup D fuel h a = .ok (h', p)) ∧ Copy h h' p v.dup
  | a, ⟨integer, real, pchar, type, length, data⟩, h₀, h, hbounded₀, hbounded, hext, hv => by
    obtain ⟨node, ha, hinteger, hreal, hpchar, htype, helems⟩ := hv
    have hnode : h.nodes a = some node := (hext.nodes a (hbounded₀ a node ha)).trans ha
    by_cases harray : type = .array
    · rw [if_pos harray] at helems
      obtain ⟨hlength, hcount, hshort, hall⟩ := helems
      obtain ⟨h₂, qs, ⟨n, hn⟩, hqs⟩ := dupElems_copy (i := 0) hbounded₀ ha hall
        (hbounded.insert _) (hext.trans (.insert h (copyOf D node)))
      have hp : h₂.nodes h.next = some (copyOf D node) :=
        (hqs.extends_.nodes _ (Nat.lt_succ_self _)).trans (Heap.insert_nodes h _)
      have hcopied : (FlexVal.dupElems data).length = data.length :=
        FlexVal.length_dupElems data
      have hcopy := copy_array hqs hinteger hreal hpchar (htype.trans harray)
        (by omega) (by omega)
      rw [FlexVal.dup, if_pos harray, harray, hcount, ← hcopied]
      refine ⟨_, h.next, ⟨n + 1, ?_⟩, hcopy⟩
      intro fuel hfuel
      obtain ⟨fuel, rfl⟩ : ∃ k, fuel = k + 1 := ⟨fuel - 1, by omega⟩
      rw [flexvalDup_eq D fuel hnode, if_pos (htype.trans harray), mallocPointers,
        if_pos (by omega), hlength, hcount]
      simp only [Except.bind, hn fuel (by omega), Heap.modify_eq hp]
    · rw [if_neg harray] at helems
      rw [FlexVal.dup, if_neg harray]
      refine ⟨h.insert (copyOf D node), h.next, ⟨1, ?_⟩,
        copy_leaf hbounded hinteger hreal hpchar htype harray⟩
      intro fuel hfuel
      obtain ⟨fuel, rfl⟩ : ∃ k, fuel = k + 1 := ⟨fuel - 1, by omega⟩
      rw [flexvalDup_eq D fuel hnode, if_neg (by rwa [htype])]

theorem dupElems_copy : ∀ {vs : List (FlexVal F)} {a i : ℕ} {node : Node F} {h₀ h : Heap F},
    h₀.Bounded → h₀.nodes a = some node → HoldsAll h₀ (node.elems.drop i) vs → h.Bounded →
    Extends h₀ h →
    ∃ h' qs, (∃ n, ∀ fuel, n ≤ fuel →
        dupElems (flexvalDup D fuel) a vs.length i h = .ok (h', qs)) ∧
      CopyAll h h' qs (FlexVal.dupElems vs)
  | [], a, i, node, h₀, h, _, _, _, hbounded, _ =>
    ⟨h, [], ⟨0, fun _ _ => rfl⟩, .nil hbounded⟩
  | v :: vs, a, i, node, h₀, h, hbounded₀, ha, hvs, hbounded, hext => by
    cases hdrop : node.elems.drop i with
    | nil =>
      rw [hdrop] at hvs
      exact hvs.elim
    | cons e es =>
      rw [hdrop] at hvs
      obtain ⟨hv, hvs⟩ : Holds h₀ e v ∧ HoldsAll h₀ es vs := hvs
      have hrest : node.elems.drop (i + 1) = es := by
        rw [← List.tail_drop, hdrop, List.tail_cons]
      have helem : node.elem i = .ok e := by
        rw [Node.elem, ← List.head?_drop, hdrop, List.head?_cons]
      obtain ⟨h₁, q, ⟨n, hn⟩, hq⟩ := flexvalDup_copy hbounded₀ hbounded hext hv
      obtain ⟨h₂, qs, ⟨m, hm⟩, hqs⟩ := dupElems_copy hbounded₀ ha (by rw [hrest]; exact hvs)
        hq.bounded (hext.trans hq.extends_)
      refine ⟨h₂, q :: qs, ⟨max n m, ?_⟩, hq.cons hqs⟩
      intro fuel hfuel
      have hnode : h.nodes a = some node := (hext.nodes a (hbounded₀ a node ha)).trans ha
      simp only [List.length_cons, dupElems, Heap.read_eq hnode, helem, hn fuel (by omega),
        hm fuel (by omega), bind, Except.bind, pure, Except.pure]

end

mutual

/-- Nothing is cut off from short texts. -/
theorem Holds.dup_eq : ∀ {a : ℕ} {v : FlexVal F}, Holds h a v → Short v → v.dup = v
  | a, ⟨integer, real, pchar, type, length, data⟩, hv, hshort => by
    obtain ⟨hpchar, hdata⟩ : pchar.length < 65535 ∧ ShortAll data := hshort
    obtain ⟨node, -, -, -, -, -, helems⟩ := hv
    have htext : FlexVal.bufferText pchar = pchar := List.take_of_length_le (by omega)
    by_cases harray : type = .array
    · rw [if_pos harray] at helems
      rw [FlexVal.dup, if_pos harray, htext, helems.2.2.2.dupElems_eq hdata]
    · rw [if_neg harray] at helems
      obtain ⟨rfl, rfl⟩ := helems
      rw [FlexVal.dup, if_neg harray, htext]

theorem HoldsAll.dupElems_eq : ∀ {es : List ℕ} {vs : List (FlexVal F)}, HoldsAll h es vs →
    ShortAll vs → FlexVal.dupElems vs = vs
  | _, [], _, _ => rfl
  | e :: es, v :: vs, hvs, hshort => by
    obtain ⟨hv, hvs⟩ : Holds h e v ∧ HoldsAll h es vs := hvs
    obtain ⟨hshort, hrest⟩ : Short v ∧ ShortAll vs := hshort
    rw [FlexVal.dupElems, hv.dup_eq hshort, hvs.dupElems_eq hrest]

end

/-- Every value with short texts is copied: the copy stands for the same value, no address that was
given before has changed, and the copy has no descriptor in common with the value. -/
theorem flexvalDup_deep (hbounded : h.Bounded) (hv : Holds h a v) (hshort : Short v) :
    ∃ h' p, (∃ n, ∀ fuel, n ≤ fuel → flexvalDup D fuel h a = .ok (h', p)) ∧
      Holds h' p v ∧ Holds h' a v ∧ (∀ b < h.next, h'.nodes b = h.nodes b) ∧
      ∀ b, Within h' p b → ¬Within h' a b := by
  obtain ⟨h', p, hdup, hcopy⟩ := flexvalDup_copy (D := D) hbounded hbounded (.refl h) hv
  have hsame := hcopy.holds
  rw [hv.dup_eq hshort] at hsame
  refine ⟨h', p, hdup, hsame, hv.extends hbounded hcopy.extends_, hcopy.extends_.nodes, ?_⟩
  intro b hb hold
  have hlt := hv.within_lt hbounded ((hv.within_iff hbounded hcopy.extends_).1 hold)
  have hnew := hcopy.new b hb
  omega

/-- In a heap that the operations have left, every value whose texts are there is such a tree. -/
theorem Inv.exists_holds (hI : Inv h) (ha : h.nodes a = some node)
    (htext : ∀ b n, Within h a b → h.nodes b = some n → n.pchar.isSome) : ∃ v, Holds h a v := by
  -- elements stand after their array
  induction hdepth : h.next - a using Nat.strong_induction_on generalizing a node with
  | h k ih =>
    obtain ⟨text, hpchar⟩ := Option.isSome_iff_exists.1 (htext a node (.self a) ha)
    have helems : h.elemsOf a = node.elems := Heap.elemsOf_eq ha
    have hlt := hI.bounded a node ha
    by_cases harray : node.type = .array
    · have hall : ∀ e ∈ node.elems, ∃ v, Holds h e v := by
        intro e he
        have hafter : a < e := hI.after a e (by rwa [helems])
        obtain ⟨elem, helem, -⟩ := hI.elem (a := a) (by rwa [helems])
        exact ih (h.next - e) (by omega) helem
          (fun b n hb => htext b n (.elem ha harray he hb)) rfl
      obtain ⟨vs, hvs⟩ := exists_holdsAll hall
      have hlength : node.length = vs.length := (hI.length a node ha).trans hvs.length_eq
      have hshort := hI.short a node ha
      refine ⟨⟨node.integer, node.real, text, .array, vs.length, vs⟩, node, ha, rfl, rfl, hpchar,
        harray, ?_⟩
      rw [if_pos rfl]
      exact ⟨hlength, rfl, by omega, hvs⟩
    · refine ⟨⟨node.integer, node.real, text, node.type, 0, []⟩, node, ha, rfl, rfl, hpchar, rfl,
        ?_⟩
      rw [if_neg harray]
      exact ⟨rfl, rfl⟩

/-- An array of a number and of an array of a text. -/
def nestedHeap : Heap Unit where
  nodes := fun a =>
    match a with
    | 0 => some ⟨0, (), some "Array".toList, .array, 2, some [1, 2], false⟩
    | 1 => some ⟨5, (), some ['5'], .integer, 0, none, true⟩
    | 2 => some ⟨0, (), some "Array".toList, .array, 1, some [3], true⟩
    | 3 => some ⟨0, (), some ['x'], .string, 4, none, true⟩
    | _ => none
  next := 4

def nestedValue : FlexVal Unit :=
  ⟨0, (), "Array".toList, .array, 2, [⟨5, (), ['5'], .integer, 0, []⟩,
    ⟨0, (), "Array".toList, .array, 1, [⟨0, (), ['x'], .string, 0, []⟩]⟩]⟩

theorem flexvalDup_deep_nested :
    ∃ h' p, (∃ n, ∀ fuel, n ≤ fuel → flexvalDup Hive.noDoubles fuel nestedHeap 0 = .ok (h', p)) ∧
      Holds h' p nestedValue ∧ Holds h' 0 nestedValue ∧
      (∀ b < nestedHeap.next, h'.nodes b = nestedHeap.nodes b) ∧
      ∀ b, Within h' p b → ¬Within h' 0 b := by
  have hbounded : nestedHeap.Bounded := by
    intro a node ha
    by_contra hlt
    obtain ⟨k, rfl⟩ : ∃ k, a = k + 4 := ⟨a - 4, by have : nestedHeap.next = 4 := rfl; omega⟩
    cases ha
  have hholds : Holds nestedHeap 0 nestedValue := by
    simp [nestedValue, nestedHeap, Holds, HoldsAll, Node.elems]
  have hshort : Short nestedValue := by
    simp [nestedValue, Short, ShortAll]
  exact flexvalDup_deep hbounded hholds hshort

end WebTester.FlexHeap
