import Mathlib.Data.List.Nodup

/-!
# Association lists

Pairs of a key and a value, in the order in which the keys came. A value is written in
place when its key is there already, else a new pair is added at the end.
-/
namespace WebTester.Assoc

variable {κ β : Type*} [DecidableEq κ] [BEq κ] [LawfulBEq κ] {k k' : κ} {v : β}
  {l l' : List (κ × β)}

/-- Writes a value in place, or adds a pair at the end. -/
def put (k : κ) (v : β) : List (κ × β) → List (κ × β)
  | [] => [(k, v)]
  | e :: l => if e.1 = k then (e.1, v) :: l else e :: put k v l

lemma lookup_cons_ite (j : κ) (w : β) :
    ((j, w) :: l).lookup k = if k = j then some w else l.lookup k := by
  rw [List.lookup_cons]
  by_cases h : k = j
  · rw [if_pos h, beq_iff_eq.2 h]
  · rw [if_neg h, beq_eq_false_iff_ne.2 h]

theorem lookup_put : (put k v l).lookup k' = if k' = k then some v else l.lookup k' := by
  induction l with
  | nil => exact lookup_cons_ite k v
  | cons e l ih =>
    obtain ⟨j, w⟩ := e
    unfold put
    split
    · next hj =>
      obtain rfl : j = k := hj
      rw [lookup_cons_ite, lookup_cons_ite]
      split <;> rfl
    · next hj =>
      rw [lookup_cons_ite, lookup_cons_ite, ih]
      by_cases h : k' = j
      · rw [if_pos h, if_neg (fun hk => hj (h.symm.trans hk)), if_pos h]
      · rw [if_neg h, if_neg h]

omit [BEq κ] [LawfulBEq κ] in
lemma mem_keys_put : k' ∈ (put k v l).map Prod.fst ↔ k' = k ∨ k' ∈ l.map Prod.fst := by
  induction l with
  | nil => simp [put]
  | cons e l ih =>
    unfold put
    split
    · next he =>
      rw [List.map_cons, List.map_cons, List.mem_cons, ← he]
      tauto
    · rw [List.map_cons, List.map_cons, List.mem_cons, List.mem_cons, ih]
      tauto

omit [BEq κ] [LawfulBEq κ] in
theorem nodup_put (h : (l.map Prod.fst).Nodup) : ((put k v l).map Prod.fst).Nodup := by
  induction l with
  | nil => simp [put]
  | cons e l ih =>
    rw [List.map_cons, List.nodup_cons] at h
    unfold put
    split
    · rw [List.map_cons, List.nodup_cons]
      exact h
    · next he =>
      rw [List.map_cons, List.nodup_cons, mem_keys_put]
      refine ⟨?_, ih h.2⟩
      rintro (hk | hm)
      · exact he hk
      · exact h.1 hm

omit [BEq κ] [LawfulBEq κ] in
/-- A pair of the new list carries the value that was written, or was there before. -/
lemma mem_put {e : κ × β} (h : e ∈ put k v l) : e = (k, v) ∨ e ∈ l := by
  induction l with
  | nil => simpa [put] using h
  | cons f l ih =>
    unfold put at h
    split at h
    · next hf =>
      rcases List.mem_cons.1 h with rfl | hm
      · exact .inl (by rw [hf])
      · exact .inr (List.mem_cons_of_mem f hm)
    · rcases List.mem_cons.1 h with rfl | hm
      · exact .inr List.mem_cons_self
      · exact (ih hm).imp_right (List.mem_cons_of_mem f)

/-- With distinct keys a lookup finds exactly the pairs of the list. -/
theorem lookup_eq_some_iff_mem (h : (l.map Prod.fst).Nodup) :
    l.lookup k = some v ↔ (k, v) ∈ l := by
  induction l with
  | nil => simp
  | cons e l ih =>
    obtain ⟨j, w⟩ := e
    rw [List.map_cons, List.nodup_cons] at h
    rw [lookup_cons_ite, List.mem_cons, ← ih h.2, Prod.mk.injEq]
    by_cases hk : k = j
    · subst hk
      have hnone : l.lookup k ≠ some v := by
        intro hs
        exact h.1 (List.mem_map.2 ⟨(k, v), (ih h.2).1 hs, rfl⟩)
      simp [hnone, eq_comm]
    · simp [hk]

/-- Lists with distinct keys and the same pairs have the same lookups. -/
theorem lookup_congr (h : (l.map Prod.fst).Nodup) (h' : (l'.map Prod.fst).Nodup)
    (hm : ∀ e, e ∈ l ↔ e ∈ l') (k : κ) : l.lookup k = l'.lookup k := by
  ext v
  rw [lookup_eq_some_iff_mem h, lookup_eq_some_iff_mem h', hm]

omit [DecidableEq κ] in
lemma mem_of_lookup (h : l.lookup k = some v) : (k, v) ∈ l := by
  rw [List.lookup_eq_some_iff] at h
  obtain ⟨l₁, l₂, rfl, -⟩ := h
  simp

omit [BEq κ] [LawfulBEq κ] in
/-- A key that is not there is added at the end. -/
theorem put_of_notMem (h : k ∉ l.map Prod.fst) : put k v l = l ++ [(k, v)] := by
  induction l with
  | nil => rfl
  | cons e l ih =>
    rw [List.map_cons, List.mem_cons, not_or] at h
    rw [put, if_neg (Ne.symm h.1), ih h.2, List.cons_append]

omit [BEq κ] [LawfulBEq κ] in
/-- The value of the first pair with the key is replaced. -/
theorem put_append (h : k ∉ l.map Prod.fst) (w : β) :
    put k v (l ++ (k, w) :: l') = l ++ (k, v) :: l' := by
  induction l with
  | nil => simp [put]
  | cons e l ih =>
    rw [List.map_cons, List.mem_cons, not_or] at h
    rw [List.cons_append, put, if_neg (Ne.symm h.1), ih h.2, List.cons_append]

omit [BEq κ] [LawfulBEq κ] in
theorem put_put (w : β) : put k v (put k w l) = put k v l := by
  induction l with
  | nil => simp [put]
  | cons e l ih =>
    by_cases h : e.1 = k
    · simp [put, h]
    · simp [put, h, ih]

omit [BEq κ] [LawfulBEq κ] in
theorem length_put_le : (put k v l).length ≤ l.length + 1 := by
  induction l with
  | nil => simp [put]
  | cons e l ih =>
    unfold put
    split
    · simp
    · simpa using ih

/-- Takes the pairs with a key out. -/
def remove (k : κ) (l : List (κ × β)) : List (κ × β) := l.filter fun e => e.1 ≠ k

omit [BEq κ] [LawfulBEq κ] in
theorem remove_of_notMem (h : k ∉ l.map Prod.fst) : remove k l = l := by
  refine List.filter_eq_self.2 fun e he => ?_
  have hne : e.1 ≠ k := by
    rintro rfl
    exact h (List.mem_map_of_mem he)
  simpa using hne

omit [BEq κ] [LawfulBEq κ] in
theorem remove_append (h : ((l ++ (k, v) :: l').map Prod.fst).Nodup) :
    remove k (l ++ (k, v) :: l') = l ++ l' := by
  rw [List.map_append, List.map_cons, List.nodup_middle, List.nodup_cons, List.mem_append,
    not_or] at h
  have hl := remove_of_notMem h.1.1
  have hl' := remove_of_notMem h.1.2
  unfold remove at hl hl' ⊢
  rw [List.filter_append, List.filter_cons_of_neg (by simp), hl, hl']

theorem lookup_remove : (remove k l).lookup k' = if k' = k then none else l.lookup k' := by
  induction l with
  | nil => simp [remove]
  | cons e l ih =>
    obtain ⟨j, w⟩ := e
    unfold remove at ih ⊢
    by_cases hj : j = k
    · subst hj
      rw [List.filter_cons_of_neg (by simp), ih, lookup_cons_ite]
      split <;> rfl
    · rw [List.filter_cons_of_pos (by simpa using hj), lookup_cons_ite, lookup_cons_ite, ih]
      by_cases h : k' = j
      · rw [if_pos h, if_neg (fun hk => hj (h.symm.trans hk)), if_pos h]
      · rw [if_neg h, if_neg h]

end WebTester.Assoc
