import WebTester.Assoc
import WebTester.CString
import Mathlib.Data.List.Range
import Mathlib.Algebra.Order.Ring.Int

/-!
# Associative arrays

`assarr_t` is a hash table with chains of entries. The hash is computed with signed
characters, so that it may be negative; `__self->data[hash]` is then no bucket of the
table, and what follows has no defined effect.
-/
namespace WebTester.Assarr
open CString Assoc

/-- The number `m` of buckets. -/
def buckets : ℕ := 10987

/-- The multiplier `k`. -/
def multiplier : ℤ := 43

/-- `assarr_hash`, with the remainder of C. -/
def assarrHash (key : CStr) : ℤ :=
  key.foldl (fun h c => (h * multiplier + schar c).tmod buckets) 0

lemma assarrHash_lt (key : CStr) : assarrHash key < buckets := by
  rcases List.eq_nil_or_concat' key with rfl | ⟨cs, c, rfl⟩
  · exact Int.natCast_pos.2 (by decide)
  · unfold assarrHash
    rw [List.foldl_concat]
    exact Int.tmod_lt_of_pos _ (Int.natCast_pos.2 (by decide))

/-- The chains of the table. An entry stands in the bucket of its hash, and no key has
two entries. -/
@[ext]
structure AssArr (β : Type*) where
  data : ℕ → List (CStr × β)
  hashed : ∀ i, ∀ e ∈ data i, assarrHash e.1 = i
  nodup : ∀ i, ((data i).map Prod.fst).Nodup

namespace AssArr

variable {β : Type*} {a b : AssArr β} {key : CStr} {v : β}

/-- `assarr_create`. -/
def create : AssArr β where
  data _ := []
  hashed _ _ h := absurd h List.not_mem_nil
  nodup _ := List.nodup_nil

/-- `assarr_get_value`, where the hash is a bucket. -/
def getValue (a : AssArr β) (key : CStr) : Option β :=
  if 0 ≤ assarrHash key then (a.data (assarrHash key).toNat).lookup key else none

/-- `assarr_set_value`: `assarr_define` adds an entry at the end of the chain when there is
none, and the value of the entry is set. -/
def setValue (a : AssArr β) (key : CStr) (v : β) : Option (AssArr β) :=
  if h : 0 ≤ assarrHash key then some {
    data := Function.update a.data (assarrHash key).toNat
      (put key v (a.data (assarrHash key).toNat))
    hashed := by
      intro i e he
      by_cases hi : i = (assarrHash key).toNat
      · subst hi
        rw [Function.update_self] at he
        rcases mem_put he with rfl | hm
        · exact (Int.toNat_of_nonneg h).symm
        · exact a.hashed _ e hm
      · rw [Function.update_of_ne hi] at he
        exact a.hashed i e he
    nodup := by
      intro i
      by_cases hi : i = (assarrHash key).toNat
      · subst hi
        rw [Function.update_self]
        exact nodup_put (a.nodup _)
      · rw [Function.update_of_ne hi]
        exact a.nodup i }
  else none

/-- `assarr_unset_value`, where the hash is a bucket. -/
def unsetValue (a : AssArr β) (key : CStr) : AssArr β where
  data i := remove key (a.data i)
  hashed i e he := a.hashed i e (List.mem_of_mem_filter he)
  nodup i := (a.nodup i).sublist (List.filter_sublist.map Prod.fst)

/-- The entries in the order of `ASSARR_FOREACH_DO`. -/
def entries (a : AssArr β) : List (CStr × β) := (List.range buckets).flatMap a.data

@[simp] theorem getValue_create : (create : AssArr β).getValue key = none := by
  simp [getValue, create]

theorem setValue_isSome : (a.setValue key v).isSome ↔ 0 ≤ assarrHash key := by
  unfold setValue
  split
  · next h => simp [h]
  · next h => simp [h]

lemma setValue_data (h : a.setValue key v = some b) :
    0 ≤ assarrHash key ∧ b.data = Function.update a.data (assarrHash key).toNat
      (put key v (a.data (assarrHash key).toNat)) := by
  unfold setValue at h
  split at h
  · next hk =>
    cases h
    exact ⟨hk, rfl⟩
  · cases h

/-- A value that is written twice is the one written last. -/
lemma setValue_setValue {c : AssArr β} {w : β} (hb : a.setValue key w = some b)
    (hc : a.setValue key v = some c) : b.setValue key v = some c := by
  obtain ⟨hhash, hbdata⟩ := setValue_data hb
  obtain ⟨-, hcdata⟩ := setValue_data hc
  obtain ⟨d, hd⟩ := Option.isSome_iff_exists.1 (setValue_isSome.2 hhash)
  obtain ⟨-, hddata⟩ := setValue_data hd
  rw [hd, Option.some.injEq]
  ext1
  rw [hddata, hcdata, hbdata, Function.update_self, Function.update_idem, put_put]

lemma length_setValue (h : a.setValue key v = some b) (i : ℕ) :
    (b.data i).length ≤ (a.data i).length + 1 := by
  rw [(setValue_data h).2]
  by_cases hi : i = (assarrHash key).toNat
  · subst hi
    rw [Function.update_self]
    exact length_put_le
  · rw [Function.update_of_ne hi]
    exact Nat.le_succ _

theorem getValue_setValue (h : a.setValue key v = some b) (key' : CStr) :
    b.getValue key' = if key' = key then some v else a.getValue key' := by
  unfold setValue at h
  split at h
  · next hk =>
    cases h
    unfold getValue
    dsimp only
    by_cases hb : assarrHash key' = assarrHash key
    · rw [hb, if_pos hk, if_pos hk, Function.update_self]
      exact lookup_put
    · have hne : key' ≠ key := fun he => hb (by rw [he])
      rw [if_neg hne]
      by_cases h0 : 0 ≤ assarrHash key'
      · have hi : (assarrHash key').toNat ≠ (assarrHash key).toNat := by omega
        rw [if_pos h0, if_pos h0, Function.update_of_ne hi]
      · rw [if_neg h0, if_neg h0]
  · cases h

lemma unsetValue_data_of_ne {i : ℕ} (h : assarrHash key ≠ i) :
    (a.unsetValue key).data i = a.data i := by
  refine remove_of_notMem fun hmem => ?_
  obtain ⟨e, he, rfl⟩ := List.mem_map.1 hmem
  exact h (a.hashed i e he)

lemma unsetValue_eq_self (h : a.getValue key = none) : a.unsetValue key = a := by
  ext1
  funext i
  refine remove_of_notMem fun hmem => ?_
  obtain ⟨e, he, rfl⟩ := List.mem_map.1 hmem
  have hget : a.getValue e.1 = (a.data i).lookup e.1 := by
    rw [getValue, a.hashed i e he, if_pos (Int.natCast_nonneg i), Int.toNat_natCast]
  rw [hget, (lookup_eq_some_iff_mem (v := e.2) (a.nodup i)).2 he] at h
  cases h

theorem getValue_unsetValue (a : AssArr β) (key key' : CStr) :
    (a.unsetValue key).getValue key' = if key' = key then none else a.getValue key' := by
  unfold getValue unsetValue
  dsimp only
  rw [lookup_remove]
  split <;> split <;> rfl

/-- Two buckets share no key. -/
lemma nodup_entries (a : AssArr β) : (a.entries.map Prod.fst).Nodup := by
  unfold entries
  rw [List.map_flatMap, List.nodup_flatMap]
  refine ⟨fun i _ => a.nodup i, List.nodup_range.imp ?_⟩
  intro i j hij k hi hj
  obtain ⟨e, he, rfl⟩ := List.mem_map.1 hi
  obtain ⟨f, hf, hk⟩ := List.mem_map.1 hj
  have h := a.hashed j f hf
  rw [hk, a.hashed i e he] at h
  exact hij (by exact_mod_cast h)

/-- An entry is in the table exactly when its key has its value. -/
theorem mem_entries {e : CStr × β} : e ∈ a.entries ↔ a.getValue e.1 = some e.2 := by
  unfold entries getValue
  rw [List.mem_flatMap]
  constructor
  · rintro ⟨i, -, he⟩
    have hi := a.hashed i e he
    rw [hi, if_pos (Int.natCast_nonneg i), Int.toNat_natCast]
    exact (lookup_eq_some_iff_mem (a.nodup i)).2 he
  · intro h
    split at h
    · refine ⟨(assarrHash e.1).toNat, List.mem_range.2 ?_, mem_of_lookup h⟩
      have := assarrHash_lt e.1
      omega
    · cases h

lemma hash_of_mem {e : CStr × β} (he : e ∈ a.entries) : 0 ≤ assarrHash e.1 := by
  obtain ⟨i, -, hi⟩ := List.mem_flatMap.1 he
  rw [a.hashed i e hi]
  exact Int.natCast_nonneg i

@[simp] lemma entries_create : (create : AssArr β).entries = [] := by
  rw [List.eq_nil_iff_forall_not_mem]
  intro e he
  rw [mem_entries, getValue_create] at he
  cases he

theorem lookup_entries (a : AssArr β) (key : CStr) : a.entries.lookup key = a.getValue key := by
  ext v
  rw [lookup_eq_some_iff_mem a.nodup_entries, mem_entries]

/-! ## Filling an array -/

/-- Calls of `assarr_set_value`, one after the other. -/
def setAll (kvs : List (CStr × β)) (a : AssArr β) : Option (AssArr β) :=
  kvs.foldlM (fun a kv => a.setValue kv.1 kv.2) a

lemma setAll_cons {kv : CStr × β} {kvs : List (CStr × β)} :
    setAll (kv :: kvs) a = (a.setValue kv.1 kv.2).bind (setAll kvs) := rfl

/-- Calls have a defined effect exactly when every key hashes to a bucket. -/
theorem setAll_isSome {kvs : List (CStr × β)} :
    (setAll kvs a).isSome ↔ ∀ kv ∈ kvs, 0 ≤ assarrHash kv.1 := by
  induction kvs generalizing a with
  | nil => simp [setAll]
  | cons kv kvs ih =>
    rw [setAll_cons, List.forall_mem_cons]
    cases hs : a.setValue kv.1 kv.2 with
    | none =>
      have hneg : ¬0 ≤ assarrHash kv.1 := by
        rw [← setValue_isSome (a := a) (v := kv.2), hs]
        simp
      simp [hneg]
    | some b =>
      have hpos : 0 ≤ assarrHash kv.1 := by
        rw [← setValue_isSome (a := a) (v := kv.2), hs]
        rfl
      rw [Option.bind_some, ih]
      simp [hpos]

/-- The last call for a key decides its value. -/
theorem getValue_setAll {kvs : List (CStr × β)} (h : setAll kvs a = some b) (key : CStr) :
    b.getValue key = (kvs.reverse.lookup key).or (a.getValue key) := by
  induction kvs generalizing a with
  | nil =>
    obtain rfl : a = b := by simpa [setAll] using h
    simp
  | cons kv kvs ih =>
    rw [setAll_cons, Option.bind_eq_some_iff] at h
    obtain ⟨c, hc, hb⟩ := h
    rw [ih hb, getValue_setValue hc, List.reverse_cons, List.lookup_append, Option.or_assoc]
    congr 1
    obtain ⟨k, v⟩ := kv
    rw [lookup_cons_ite]
    split <;> simp

/-- A filled array holds the pairs of a list with distinct keys and nothing else. -/
theorem getValue_setAll_create {kvs : List (CStr × β)} (hn : (kvs.map Prod.fst).Nodup)
    (h : setAll kvs create = some b) (key : CStr) : b.getValue key = kvs.lookup key := by
  have hr : (kvs.reverse.map Prod.fst).Nodup := by
    rw [List.map_reverse]
    exact List.nodup_reverse.2 hn
  rw [getValue_setAll h, getValue_create, Option.or_none]
  exact lookup_congr hr hn (fun _ => List.mem_reverse) key

/-- `ASSARR_FOREACH_DO` visits every pair of a filled array once. -/
theorem entries_perm {kvs : List (CStr × β)} (hn : (kvs.map Prod.fst).Nodup)
    (h : setAll kvs create = some b) : b.entries.Perm kvs := by
  refine (List.perm_ext_iff_of_nodup b.nodup_entries.of_map hn.of_map).2 fun e => ?_
  rw [mem_entries, getValue_setAll_create hn h]
  exact lookup_eq_some_iff_mem hn

end AssArr

end WebTester.Assarr
