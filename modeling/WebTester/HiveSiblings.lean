import WebTester.HiveRuns

/-!
# Siblings in a configuration

A node knows its parent and its place among the children of the parent, and `hive_next_sibling`
goes by these two. `#include` moves the children of another root, which keep both, and
`hive_prev_sibling` adds one to the place as `hive_next_sibling` does.
-/
namespace WebTester.Hive
open CString Flexval Relation

/-! ## Parents, places and siblings -/

section Siblings

variable {F : Type} (heap : Heap F)

/-- `hive_node_by_index`. -/
def nodeByIndex (self : Option ℕ) (index : ℕ) : Option ℕ :=
  self.bind fun n => (nodesOf heap n)[index]?

/-- `hive_next_sibling`. -/
def nextSibling (n : ℕ) : Option ℕ :=
  heap[n]?.bind fun node => nodeByIndex heap node.parent (node.index + 1)

/-- `hive_prev_sibling`. -/
def prevSibling (n : ℕ) : Option ℕ :=
  heap[n]?.bind fun node => nodeByIndex heap node.parent (node.index + 1)

/-- `hive_first_child`. -/
def firstChild (n : ℕ) : Option ℕ := (nodesOf heap n).head?

/-- At most so many nodes from a node on, by `hive_next_sibling`. -/
def visit : ℕ → Option ℕ → List ℕ
  | 0, _ => []
  | _ + 1, none => []
  | fuel + 1, some n => n :: visit fuel (nextSibling heap n)

/-- Every child knows its parent and its place, so that all children are visited in order, and the
sibling before the next one is the node itself. -/
structure Siblings (root : ℕ) : Prop where
  placed : ∀ n, Under heap root n → ∀ i k, (nodesOf heap n)[i]? = some k →
    parentOf heap k = some n ∧ indexOf heap k = some i
  visited : ∀ n, Under heap root n → ∀ fuel, (nodesOf heap n).length ≤ fuel →
    visit heap fuel (firstChild heap n) = nodesOf heap n
  prev_next : ∀ n k, Under heap root n → nextSibling heap n = some k →
    prevSibling heap k = some n

end Siblings

section Parsed

variable {F : Type} {D : Doubles F} {heap heap' : Heap F} {root cur b n k : ℕ} {v : Bool}
  {ids : List ℕ} {files : List (CStr × CStr)}

/-! ## Nodes that spoil the siblings -/

/-- A node with two children, or with a first child that knows another parent. -/
def Bad (root : ℕ) (heap : Heap F) : Prop :=
  ∃ n, Under heap root n ∧ (2 ≤ (nodesOf heap n).length ∨
    ∃ k, (nodesOf heap n).head? = some k ∧ parentOf heap k ≠ some n)

namespace Bad

lemma grown (h : Bad root heap) (htidy : Tidy heap) (hgrown : Grown cur ids heap heap') :
    Bad root heap' := by
  obtain ⟨n, hn, hbad⟩ := h
  have hprefix := hgrown.prefix_nodesOf n
  refine ⟨n, hn.mono hgrown.prefix_nodesOf, ?_⟩
  obtain hwide | ⟨k, hhead, hparent⟩ := hbad
  · exact .inl (hwide.trans hprefix.length_le)
  · refine .inr ⟨k, ?_, ?_⟩
    · obtain ⟨rest, hrest⟩ := hprefix
      obtain ⟨ks, hks⟩ := List.head?_eq_some_iff.1 hhead
      rw [← hrest, hks]
      rfl
    · have hlt := (tidy_iff.1 htidy n k (List.mem_of_head? hhead)).2
      rwa [hgrown.parentOf_eq hlt]

/-- A brace may open a child that knows another parent only when there is another child. -/
lemma descend (h : Bad root heap) (hplace : Place root heap cur true b) {child : ℕ}
    (hmove : move heap cur .descend = some (heap', child)) : Bad root heap' := by
  obtain ⟨n, hn, hbad⟩ := h
  obtain ⟨-, -, -, hnodes, hother, hparent', -, -⟩ := move_descend_spec hmove
  refine ⟨n, hn.mono fun i => by rw [hnodes], ?_⟩
  rw [hnodes]
  obtain hwide | ⟨k, hhead, hparent⟩ := hbad
  · exact .inl hwide
  by_cases hk : k = child
  · subst hk
    by_cases hcur : n = cur
    · subst hcur
      obtain ⟨l, hl, hlparent⟩ := hplace.taken rfl
      obtain ⟨ks, hks⟩ := List.head?_eq_some_iff.1 hhead
      rw [hks] at hl ⊢
      obtain rfl | hl := List.mem_cons.1 hl
      · exact absurd hlparent hparent
      · have hpos := List.length_pos_of_mem hl
        rw [List.length_cons]
        exact .inl (by omega)
    · refine .inr ⟨k, hhead, ?_⟩
      rw [hparent']
      exact fun heq => hcur (Option.some.inj heq).symm
  · refine .inr ⟨k, hhead, ?_⟩
    rwa [hother k hk]

lemma moves (h : Bad root heap) {adds v' : Bool} {cur' b' : ℕ}
    (hmoves : Moves D heap cur v b adds heap' cur' v' b') (hplace : Place root heap cur v b) :
    Bad root heap' := by
  cases hmoves with
  | stay => exact h
  | ascend v' hb hmove => exact (move_ascend_spec hmove).1 ▸ h
  | descend hv hmove =>
    subst hv
    exact h.descend hplace hmove
  | add v' hadd => exact h.grown hplace.tidy (addVariable_spec hadd).2.1
  | addDescend hadd hmove =>
    exact (h.grown hplace.tidy (addVariable_spec hadd).2.1).descend (hplace.add hadd true) hmove

lemma runs {quiet : CStr → Prop} {fs : List CStr} {ss : List ℕ} (h : Bad root heap)
    (hruns : Runs D quiet root heap cur v b fs ss heap') : Bad root heap' := by
  induction hruns with
  | done => exact h
  | incl hplace hgrown _ _ _ ih => exact ih (h.grown hplace.tidy hgrown)
  | move hplace hmoves _ ih => exact ih (h.moves hmoves hplace)

/-- What is added by a file that sets a variable. -/
lemma of_include (hplace : Place root heap cur v b) (hgrown : Grown cur ids heap heap')
    (hne : ids ≠ []) (hparent : ∀ k ∈ ids, parentOf heap' k ≠ some cur) : Bad root heap' := by
  obtain ⟨k, ks, rfl⟩ := List.exists_cons_of_ne_nil hne
  refine ⟨cur, hplace.trail.under.mono hgrown.prefix_nodesOf, ?_⟩
  rw [hgrown.nodesOf_cur hplace.lt]
  cases hnodes : nodesOf heap cur with
  | nil => exact .inr ⟨k, rfl, hparent k List.mem_cons_self⟩
  | cons l ls =>
    left
    simp only [List.cons_append, List.length_cons, List.length_append]
    omega

end Bad

/-- A tree in which every node has one child at most, from the root down. -/
structure Spine (root : ℕ) (heap : Heap F) (ids : List ℕ) : Prop where
  head : ids[0]? = some root
  top : parentOf heap root = none
  nodup : ids.Nodup
  lt : ∀ n ∈ ids, n < heap.length
  nodes : ∀ i n, ids[i]? = some n → nodesOf heap n = ids[i + 1]?.toList
  parent : ∀ i n k, ids[i]? = some n → ids[i + 1]? = some k → parentOf heap k = some n
  index : ∀ i k, ids[i + 1]? = some k → indexOf heap k = some 0

namespace Spine

lemma lt_of_place (h : Spine root heap ids) {i n : ℕ} (hn : ids[i]? = some n) : n < heap.length :=
  h.lt _ (List.mem_of_getElem? hn)

/-- A quiet file is included. -/
lemma quiet (h : Spine root heap ids) (hgrown : Grown cur [] heap heap') :
    Spine root heap' ids := by
  refine ⟨h.head, ?_, h.nodup, fun n hn => (h.lt n hn).trans_le hgrown.length, ?_, ?_, ?_⟩
  · rw [hgrown.parentOf_eq (h.lt_of_place h.head), h.top]
  · intro i n hn
    have hnodes : nodesOf heap' n = nodesOf heap n := by
      by_cases hcur : n = cur
      · subst hcur
        rw [hgrown.nodesOf_cur (h.lt_of_place hn), List.append_nil]
      · exact hgrown.nodesOf_ne (h.lt_of_place hn) hcur
    rw [hnodes, h.nodes i n hn]
  · intro i n k hn hk
    rw [hgrown.parentOf_eq (h.lt_of_place hk), h.parent i n k hn hk]
  · intro i k hk
    rw [hgrown.indexOf_eq (h.lt_of_place hk), h.index i k hk]

lemma nodes_last (h : Spine root heap ids) (hcur : ids[b]? = some cur)
    (hlast : ids.length = b + 1) : nodesOf heap cur = [] := by
  rw [h.nodes b cur hcur, List.getElem?_eq_none (by omega)]
  rfl

/-- A place in a list with a new last element is an old place or the last one. -/
lemma getElem?_concat {x i n : ℕ} (h : (ids ++ [x])[i]? = some n) :
    ids[i]? = some n ∧ i < ids.length ∨ i = ids.length ∧ n = x := by
  rcases Nat.lt_or_ge i ids.length with hi | hi
  · rw [List.getElem?_append_left hi] at h
    exact .inl ⟨h, hi⟩
  · rw [List.getElem?_append_right hi, List.getElem?_singleton] at h
    split_ifs at h with hzero
    exact .inr ⟨by omega, (Option.some.inj h).symm⟩

/-- The new variable is the only child of the node that was the last one, and has no child. -/
lemma add_nodes (h : Spine root heap ids) {name : CStr} {t : Token} {i n : ℕ}
    (hadd : addVariable D heap cur name t = some heap') (hcur : ids[b]? = some cur)
    (hlast : ids.length = b + 1) (hn : (ids ++ [heap.length])[i]? = some n) :
    nodesOf heap' n = (ids ++ [heap.length])[i + 1]?.toList := by
  obtain ⟨hlt, hgrown, -, hnil, -⟩ := addVariable_spec hadd
  obtain ⟨hold, hi⟩ | ⟨rfl, rfl⟩ := getElem?_concat hn
  · rcases Nat.lt_or_ge i b with hib | hib
    · have hne : n ≠ cur := by
        rintro rfl
        have heq : i = b := (List.getElem?_inj hi h.nodup).1 (hold.trans hcur.symm)
        omega
      rw [hgrown.nodesOf_ne (h.lt_of_place hold) hne, h.nodes i n hold,
        List.getElem?_append_left (by omega)]
    · obtain rfl : i = b := by omega
      obtain rfl : cur = n := Option.some.inj (hcur.symm.trans hold)
      rw [hgrown.nodesOf_cur hlt, h.nodes_last hcur hlast, ← hlast, List.getElem?_concat_length]
      rfl
  · rw [hnil, List.getElem?_eq_none (by simp)]
    rfl

/-- A variable that is set in the last node. -/
lemma add (h : Spine root heap ids) {name : CStr} {t : Token}
    (hadd : addVariable D heap cur name t = some heap') (hcur : ids[b]? = some cur)
    (hlast : ids.length = b + 1) : Spine root heap' (ids ++ [heap.length]) := by
  obtain ⟨-, hgrown, hlen, -, hparent, hindex⟩ := addVariable_spec hadd
  refine ⟨?_, ?_, ?_, ?_, fun i n hn => h.add_nodes hadd hcur hlast hn, ?_, ?_⟩
  · rw [List.getElem?_append_left (by omega), h.head]
  · rw [hgrown.parentOf_eq (h.lt_of_place h.head), h.top]
  · refine h.nodup.append (List.nodup_singleton _) ?_
    intro n hn hn'
    rw [List.mem_singleton.1 hn'] at hn
    exact absurd (h.lt _ hn) (lt_irrefl _)
  · intro n hn
    rw [hlen]
    obtain hn | hn := List.mem_append.1 hn
    · exact (h.lt n hn).trans (Nat.lt_succ_self _)
    · rw [List.mem_singleton.1 hn]
      exact Nat.lt_succ_self _
  · intro i n k hn hk
    obtain ⟨hk, hi⟩ | ⟨hi, rfl⟩ := getElem?_concat hk
    · obtain ⟨hn, -⟩ | ⟨hn, -⟩ := getElem?_concat hn
      · rw [hgrown.parentOf_eq (h.lt_of_place hk), h.parent i n k hn hk]
      · omega
    · obtain rfl : i = b := by omega
      obtain ⟨hn, -⟩ | ⟨hn, -⟩ := getElem?_concat hn
      · obtain rfl : cur = n := Option.some.inj (hcur.symm.trans hn)
        exact hparent
      · omega
  · intro i k hk
    obtain ⟨hk, -⟩ | ⟨-, rfl⟩ := getElem?_concat hk
    · rw [hgrown.indexOf_eq (h.lt_of_place hk), h.index i k hk]
    · rw [hindex, h.nodes_last hcur hlast]
      rfl

/-- The only child is opened. Its parent was right before. -/
lemma descend (h : Spine root heap ids) {child : ℕ} (hcur : ids[b]? = some cur)
    (hmove : move heap cur .descend = some (heap', child)) :
    Spine root heap' ids ∧ ids[b + 1]? = some child := by
  obtain ⟨hlast, -, hlen, hnodes, hother, hparent, hindex, -⟩ := move_descend_spec hmove
  have hchild : ids[b + 1]? = some child := by
    rw [h.nodes b cur hcur] at hlast
    cases hnext : ids[b + 1]? with
    | none => simp [hnext] at hlast
    | some k => simpa [hnext] using hlast
  have hsame : ∀ i, parentOf heap' i = parentOf heap i := by
    intro i
    by_cases hi : i = child
    · rw [hi, hparent, h.parent b cur child hcur hchild]
    · exact hother i hi
  refine ⟨⟨h.head, ?_, h.nodup, ?_, ?_, ?_, ?_⟩, hchild⟩
  · rw [hsame, h.top]
  · rw [hlen]
    exact h.lt
  · intro i n hn
    rw [hnodes, h.nodes i n hn]
  · intro i n k hn hk
    rw [hsame, h.parent i n k hn hk]
  · intro i k hk
    rw [hindex, h.index i k hk]

lemma ascend (h : Spine root heap ids) {p : ℕ} (hcur : ids[b + 1]? = some cur)
    (hp : parentOf heap cur = some p) : ids[b]? = some p := by
  have hlt : b + 1 < ids.length := (List.getElem?_eq_some_iff.1 hcur).1
  have hprev : ids[b]? = some ids[b] := List.getElem?_eq_getElem (by omega)
  rw [hprev, ← h.parent b _ cur hprev hcur, hp]

/-- A variable that is set in a node before the last one is its second child. -/
lemma bad_add (h : Spine root heap ids) (hplace : Place root heap cur v b) {name : CStr}
    {t : Token} (hadd : addVariable D heap cur name t = some heap') (hcur : ids[b]? = some cur)
    (hlast : ids.length ≠ b + 1) : Bad root heap' := by
  obtain ⟨hlt, hgrown, -⟩ := addVariable_spec hadd
  have hb : b < ids.length := (List.getElem?_eq_some_iff.1 hcur).1
  have hnext : ids[b + 1]? = some ids[b + 1] := List.getElem?_eq_getElem (by omega)
  refine ⟨cur, hplace.trail.under.mono hgrown.prefix_nodesOf, .inl ?_⟩
  rw [hgrown.nodesOf_cur hlt, h.nodes b cur hcur, hnext]
  simp

end Spine

/-- The variables of a text are set one inside the other, the first one inside of `k` braces, and
the included files set none. -/
def Nested (quiet : CStr → Prop) (k : ℕ) (fs : List CStr) (ss : List ℕ) : Prop :=
  (∀ f ∈ fs, quiet f) ∧ ss = List.range' k ss.length

lemma nested_cons_file {quiet : CStr → Prop} {k : ℕ} {f : CStr} {fs : List CStr} {ss : List ℕ} :
    Nested quiet k (f :: fs) ss ↔ quiet f ∧ Nested quiet k fs ss := by
  rw [Nested, Nested, List.forall_mem_cons, and_assoc]

lemma nested_cons {quiet : CStr → Prop} {k b : ℕ} {fs : List CStr} {ss : List ℕ} :
    Nested quiet k fs (b :: ss) ↔ b = k ∧ Nested quiet (k + 1) fs ss := by
  rw [Nested, Nested, List.length_cons, List.range'_succ, List.cons.injEq]
  tauto

/-- Variables that are set one inside the other leave a spine, everything else a bad node. -/
lemma Runs.spine_or_bad {quiet : CStr → Prop} {k : ℕ} {fs : List CStr} {ss : List ℕ}
    (hruns : Runs D quiet root heap cur v b fs ss heap') (h : Spine root heap ids)
    (hcur : ids[b]? = some cur) (hlength : ids.length = k + 1) :
    (Nested quiet k fs ss ∧ ∃ ids', Spine root heap' ids') ∨
      (¬Nested quiet k fs ss ∧ Bad root heap') := by
  induction hruns generalizing ids k with
  | done => exact .inl ⟨⟨by simp, rfl⟩, ids, h⟩
  | @incl heap heap₁ heap' cur v b f fs ss ids' hplace hgrown hquiet hparent hruns ih =>
    rw [nested_cons_file]
    by_cases hf : quiet f
    · rw [hquiet.2 hf] at hgrown
      simpa [hf] using ih (h.quiet hgrown) hcur hlength
    · have hne : ids' ≠ [] := fun hnil => hf (hquiet.1 hnil)
      have hbad := (Bad.of_include hplace hgrown hne hparent).runs hruns
      exact .inr ⟨fun hnested => hf hnested.1, hbad⟩
  | @move heap heap₁ heap' cur cur₁ v v₁ adds b b₁ fs ss hplace hmoves hruns ih =>
    cases hmoves with
    | stay => exact ih h hcur hlength
    | ascend v' hb hmove =>
      subst hb
      obtain ⟨rfl, hp⟩ := move_ascend_spec hmove
      exact ih h (h.ascend hcur hp) hlength
    | descend hv hmove =>
      obtain ⟨hspine, hchild⟩ := h.descend hcur hmove
      exact ih hspine hchild hlength
    | add v' hadd =>
      rw [if_pos rfl, List.singleton_append, nested_cons]
      by_cases hb : b = k
      · subst hb
        have hcur' : (ids ++ [heap.length])[b]? = some cur := by
          rw [List.getElem?_append_left (by omega), hcur]
        simpa using ih (h.add hadd hcur hlength) hcur' (by simp [hlength])
      · have hbad := (h.bad_add hplace hadd hcur (by omega)).runs hruns
        exact .inr ⟨fun hnested => hb hnested.1, hbad⟩
    | addDescend hadd hmove =>
      rw [if_pos rfl, List.singleton_append, nested_cons]
      by_cases hb : b = k
      · subst hb
        have hcur' : (ids ++ [heap.length])[b]? = some cur := by
          rw [List.getElem?_append_left (by omega), hcur]
        obtain ⟨hspine, hchild⟩ := (h.add hadd hcur hlength).descend hcur' hmove
        simpa using ih hspine hchild (by simp [hlength])
      · have hbad := (h.bad_add hplace hadd hcur (by omega)).descend (hplace.add hadd true) hmove
        exact .inr ⟨fun hnested => hb hnested.1, hbad.runs hruns⟩

/-! ## Siblings of a tree that was parsed -/

/-- The last of a few siblings has no next one. -/
lemma Spine.nextSibling_eq_none (h : Spine root heap ids) {i n : ℕ} (hn : ids[i]? = some n) :
    nextSibling heap n = none := by
  unfold nextSibling
  cases hnode : heap[n]? with
  | none => rfl
  | some node =>
    rw [Option.bind_some]
    cases i with
    | zero =>
      obtain rfl : root = n := Option.some.inj (h.head.symm.trans hn)
      have htop : node.parent = none := by simpa [parentOf, hnode] using h.top
      rw [htop]
      rfl
    | succ i =>
      have hlt : i + 1 < ids.length := (List.getElem?_eq_some_iff.1 hn).1
      have hprev : ids[i]? = some ids[i] := List.getElem?_eq_getElem (by omega)
      have hparent : node.parent = some ids[i] := by
        simpa [parentOf, hnode] using h.parent i _ n hprev hn
      have hnodes : nodesOf heap ids[i] = [n] := by
        rw [h.nodes i _ hprev, hn]
        rfl
      rw [hparent, nodeByIndex, Option.bind_some, hnodes]
      rfl

lemma Spine.mem_of_under (h : Spine root heap ids) (hn : Under heap root n) :
    ∃ i : ℕ, ids[i]? = some n := by
  induction hn with
  | refl => exact ⟨0, h.head⟩
  | tail _ hmem ih =>
    obtain ⟨i, hi⟩ := ih
    rw [h.nodes i _ hi] at hmem
    exact ⟨i + 1, by simpa using hmem⟩

lemma Spine.siblings (h : Spine root heap ids) : Siblings heap root := by
  refine ⟨?_, ?_, ?_⟩
  · intro n hn i k hk
    obtain ⟨j, hj⟩ := h.mem_of_under hn
    rw [h.nodes j n hj] at hk
    cases hnext : ids[j + 1]? with
    | none => simp [hnext] at hk
    | some l =>
      obtain ⟨rfl, rfl⟩ : i = 0 ∧ l = k := by
        cases i with
        | zero => simpa [hnext] using hk
        | succ i => simp [hnext] at hk
      exact ⟨h.parent j n l hj hnext, h.index j l hnext⟩
  · intro n hn fuel hfuel
    obtain ⟨j, hj⟩ := h.mem_of_under hn
    unfold firstChild
    rw [h.nodes j n hj] at hfuel ⊢
    cases hnext : ids[j + 1]? with
    | none => cases fuel <;> rfl
    | some l =>
      rw [hnext] at hfuel
      obtain ⟨fuel, rfl⟩ : ∃ m, fuel = m + 1 := ⟨fuel - 1, by simp at hfuel; omega⟩
      have hend : visit heap fuel none = [] := by cases fuel <;> rfl
      simp [visit, h.nextSibling_eq_none hnext, hend]
  · intro n k hn hk
    obtain ⟨j, hj⟩ := h.mem_of_under hn
    rw [h.nextSibling_eq_none hj] at hk
    cases hk

lemma sibling_eq {i : ℕ} (hparent : parentOf heap k = some n) (hindex : indexOf heap k = some i) :
    nextSibling heap k = (nodesOf heap n)[i + 1]? ∧
      prevSibling heap k = (nodesOf heap n)[i + 1]? := by
  obtain ⟨node, hnode, hp⟩ := Option.bind_eq_some_iff.1 hparent
  obtain rfl : node.index = i := by simpa [indexOf, hnode] using hindex
  simp [nextSibling, prevSibling, nodeByIndex, hnode, hp]

/-- Two siblings: the one before the second is looked for behind it. -/
lemma Bad.not_siblings (h : Bad root heap) : ¬Siblings heap root := by
  intro hsib
  obtain ⟨n, hn, hwide | ⟨k, hhead, hparent⟩⟩ := h
  · have hfirst : (nodesOf heap n)[0]? = some (nodesOf heap n)[0] := List.getElem?_eq_getElem _
    have hsecond : (nodesOf heap n)[1]? = some (nodesOf heap n)[1] := List.getElem?_eq_getElem _
    obtain ⟨hparent₀, hindex₀⟩ := hsib.placed n hn 0 _ hfirst
    obtain ⟨hparent₁, hindex₁⟩ := hsib.placed n hn 1 _ hsecond
    have hnext := (sibling_eq hparent₀ hindex₀).1.trans hsecond
    have hprev := hsib.prev_next _ _ (hn.tail (List.mem_of_getElem? hfirst)) hnext
    rw [(sibling_eq hparent₁ hindex₁).2] at hprev
    have hindex₂ := (hsib.placed n hn 2 _ hprev).2
    rw [hindex₀] at hindex₂
    cases hindex₂
  · have hk : (nodesOf heap n)[0]? = some k := by rw [← List.head?_eq_getElem?, hhead]
    exact hparent (hsib.placed n hn 0 k hk).1

lemma Spine.start (value : FlexVal F) :
    Spine 0 [(⟨0, "root".toList, value, [], none⟩ : Node F)] [0] := by
  refine ⟨rfl, rfl, List.nodup_singleton 0, by simp, ?_, ?_, ?_⟩
  · intro i n hn
    obtain ⟨rfl, rfl⟩ : i = 0 ∧ n = 0 := by
      cases i with
      | zero => simpa [eq_comm] using hn
      | succ i => simp at hn
    rfl
  · intro i n k _ hk
    simp at hk
  · intro i k hk
    simp at hk

/-- The siblings of the tree that `hive_parse_buf` builds are enumerated exactly when no included
file sets a variable, directly or not, and the variables of the text are set one inside the
other. -/
theorem siblings_iff {fuel line : ℕ} {dir data error : CStr} {p : Parsed F}
    (hparse : parseBuf D (Hive.parseFile D (fun fn => files.lookup fn) fuel) dir data
      ⟨[], line, error⟩ = .ok p) :
    (∃ root, p.root = some root ∧ Siblings p.globals.heap root) ↔
      (∀ f ∈ (outline D dir (data.length + 1) Control.start (some data)).1,
        ∀ f', Reaches D files f f' → fileSettings files f' = []) ∧
      bufSettings data = List.range (bufSettings data).length := by
  have htidy : Tidy ([] : Heap F) := by
    intro i node hnode
    cases hnode
  obtain ⟨hroot, value, hruns⟩ := runs_of_parseBuf htidy
    (fun f _ g p htidy hp => parseFile_outcome htidy hp) hparse
  have hsiblings : (∃ root, p.root = some root ∧ Siblings p.globals.heap root) ↔
      Siblings p.globals.heap 0 := by
    rw [hroot]
    simp
  rw [hsiblings, List.range_eq_range']
  obtain ⟨hnested, ids, hspine⟩ | ⟨hnot, hbad⟩ :=
    hruns.spine_or_bad (k := 0) (Spine.start value) rfl rfl
  · exact ⟨fun _ => hnested, fun _ => hspine.siblings⟩
  · exact ⟨fun h => absurd h hbad.not_siblings, fun h => absurd h hnot⟩

end Parsed

lemma exists_of_any {F : Type} {r : Except Stop (Parsed F)} {P : Parsed F → Bool}
    (h : r.toOption.any P = true) : ∃ p, r = .ok p ∧ P p = true := by
  cases r with
  | error e => cases h
  | ok p => exact ⟨p, rfl, h⟩

/-- A file that sets a variable, and one that does not. -/
def siblingFiles : List (CStr × CStr) :=
  [("d/x".toList, "x 1".toList), ("d/y".toList, "// nothing".toList)]

/-- A text in the directory of these files. -/
def parseText (data : String) : Except Stop (Parsed Unit) :=
  parseBuf noDoubles (parseFile noDoubles (fun fn => siblingFiles.lookup fn) 2) "d".toList
    data.toList ⟨[], 0, []⟩

/-- A text that includes a file and has a section inside a section. -/
def nestedText : String := "a 1 \x7b #include \"y\" b \x7b c 2 \x7d \x7d"

theorem siblings_iff_nested :
    ∃ p, parseText nestedText = .ok p ∧
      ∃ root, p.root = some root ∧ Siblings p.globals.heap root := by
  obtain ⟨p, hp, -⟩ : ∃ p, parseText nestedText = .ok p ∧
      (fun _ => true) p = true := exists_of_any (by decide +kernel)
  refine ⟨p, hp, (siblings_iff hp).2 ⟨?_, by decide +kernel⟩⟩
  intro f hf
  have hfiles : (outline noDoubles "d".toList (nestedText.toList.length + 1)
      Control.start (some nestedText.toList)).1 = ["d/y".toList] := by
    decide +kernel
  rw [hfiles, List.mem_singleton] at hf
  have hquiet : Quiet noDoubles siblingFiles "d/y".toList := by
    rw [quiet_iff]
    have hsurvey : (survey noDoubles siblingFiles "d/y".toList).1 = [] := by decide +kernel
    rw [hsurvey]
    exact ⟨by decide +kernel, by simp⟩
  rw [hf]
  exact hquiet

/-- Of two variables, the one before the second is not found. A variable of an included file knows
the root that has been freed as its parent. -/
theorem siblings_not_enumerated :
    (∃ p, parseText "a 1 b 2" = .ok p ∧ p.root = some 0 ∧
      firstChild p.globals.heap 0 = some 1 ∧ nextSibling p.globals.heap 1 = some 2 ∧
      prevSibling p.globals.heap 2 = none ∧ ¬Siblings p.globals.heap 0) ∧
    (∃ p, parseText "#include \"x\"" = .ok p ∧ p.root = some 0 ∧
      nodesOf p.globals.heap 0 = [2] ∧ parentOf p.globals.heap 2 = some 1 ∧
      ¬Siblings p.globals.heap 0) := by
  constructor
  · obtain ⟨p, hp, hview⟩ := exists_of_any (r := parseText "a 1 b 2")
      (P := fun p => p.root = some 0 ∧ firstChild p.globals.heap 0 = some 1 ∧
        nextSibling p.globals.heap 1 = some 2 ∧ prevSibling p.globals.heap 2 = none)
      (by decide +kernel)
    obtain ⟨hroot, hfirst, hnext, hprev⟩ := of_decide_eq_true hview
    refine ⟨p, hp, hroot, hfirst, hnext, hprev, ?_⟩
    intro hsib
    have hunder : Under p.globals.heap 0 1 := .single (List.mem_of_head? hfirst)
    rw [hsib.prev_next 1 2 hunder hnext] at hprev
    cases hprev
  · obtain ⟨p, hp, hview⟩ := exists_of_any (r := parseText "#include \"x\"")
      (P := fun p => p.root = some 0 ∧ nodesOf p.globals.heap 0 = [2] ∧
        parentOf p.globals.heap 2 = some 1) (by decide +kernel)
    obtain ⟨hroot, hnodes, hparent⟩ := of_decide_eq_true hview
    refine ⟨p, hp, hroot, hnodes, hparent, ?_⟩
    intro hsib
    have hplaced := (hsib.placed 0 .refl 0 2 (by rw [hnodes]; rfl)).1
    rw [hparent] at hplaced
    cases hplaced

end WebTester.Hive
