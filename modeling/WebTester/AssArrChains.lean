import WebTester.AssArr
import WebTester.Linked

/-!
# The chains of an associative array

The entries of one `assarr_t` are in a heap of their own; an address without an entry can neither
be read nor written, and a function that tries has no result. A loop along a chain is given a bound
on its iterations. The address that `malloc` gives is an argument; `assarr_define` does not expect
it to fail. A value is a pointer, `none` when it is NULL. A deleter sees only the value of an entry
and is left out.
-/
namespace WebTester.Assarr
open CString Linked Assoc

variable {β : Type}

/-- `assarr_entry_t`. -/
structure Entry (β : Type) where
  key : CStr
  value : Option β
  nextPtr : Option ℕ

/-- `assarr_t` with its entries. -/
structure Table (β : Type) where
  heap : ℕ → Option (Entry β)
  data : ℕ → Option ℕ
  count : ℤ

namespace Table

/-- `assarr_create`. -/
def assarrCreate : Table β := ⟨fun _ => none, fun _ => none, 0⟩

/-- `__self->data[hash]`, where the hash is a bucket. -/
def bucket (t : Table β) (hash : ℤ) : Option (Option ℕ) :=
  if 0 ≤ hash ∧ hash < buckets then some (t.data hash.toNat) else none

/-- Assigns to `__self->data[hash]`. -/
def setBucket (t : Table β) (hash : ℤ) (p : Option ℕ) : Table β :=
  { t with data := Function.update t.data hash.toNat p }

/-- Assigns to `next_ptr` of an entry. -/
def setNext (t : Table β) (b : ℕ) (p : Option ℕ) : Option (Table β) :=
  (t.heap b).map fun e =>
    { t with heap := Function.update t.heap b (some { e with nextPtr := p }) }

/-- The loop of `assarr_define`: the last entry of the chain from `cur` on, else `prev`. -/
def lastFrom (t : Table β) : ℕ → Option ℕ → Option ℕ → Option (Option ℕ)
  | _, none, prev => some prev
  | 0, some _, _ => none
  | n + 1, some b, _ => do
    let e ← t.heap b
    t.lastFrom n e.nextPtr (some b)

/-- `assarr_define`. -/
def assarrDefine (fuel malloc : ℕ) (t : Table β) (key : CStr) : Option (Table β) := do
  let hash := assarrHash key
  let t := { t with
    heap := Function.update t.heap malloc (some ⟨key, none, none⟩)
    count := t.count + 1 }
  match ← t.bucket hash with
  | none => some (t.setBucket hash (some malloc))
  | some b =>
    let prev ← t.lastFrom fuel (some b) none
    t.setNext (← prev) (some malloc)

/-- The loop of `assarr_get_entry` from `cur` on. -/
def entryFrom (t : Table β) (key : CStr) : ℕ → Option ℕ → Option (Option ℕ)
  | _, none => some none
  | 0, some _ => none
  | n + 1, some b => do
    let e ← t.heap b
    if e.key = key then some (some b) else t.entryFrom key n e.nextPtr

/-- `assarr_get_entry`. -/
def assarrGetEntry (fuel : ℕ) (t : Table β) (key : CStr) : Option (Option ℕ) := do
  t.entryFrom key fuel (← t.bucket (assarrHash key))

/-- `assarr_get_value`. -/
def assarrGetValue (fuel : ℕ) (t : Table β) (key : CStr) : Option (Option β) := do
  match ← t.assarrGetEntry fuel key with
  | none => some none
  | some b => (t.heap b).map Entry.value

/-- `assarr_isset`. -/
def assarrIsset (fuel : ℕ) (t : Table β) (key : CStr) : Option Bool :=
  (t.assarrGetEntry fuel key).map Option.isSome

/-- `assarr_set_value`. -/
def assarrSetValue (fuel malloc : ℕ) (t : Table β) (key : CStr) (value : Option β) :
    Option (Table β) := do
  let t ← if ← t.assarrIsset fuel key then some t else t.assarrDefine fuel malloc key
  let b ← ← t.assarrGetEntry fuel key
  let e ← t.heap b
  some { t with heap := Function.update t.heap b (some { e with value := value }) }

/-- The loop of `assarr_unset_value`: the entry of the key and the entry before it. -/
def entryAndPrevFrom (t : Table β) (key : CStr) :
    ℕ → Option ℕ → Option ℕ → Option (Option ℕ × Option ℕ)
  | _, none, prev => some (prev, none)
  | 0, some _, _ => none
  | n + 1, some b, prev => do
    let e ← t.heap b
    if e.key = key then some (prev, some b) else t.entryAndPrevFrom key n e.nextPtr (some b)

/-- `assarr_unset_value`; a key that is not set is left alone. -/
def assarrUnsetValue (fuel : ℕ) (t : Table β) (key : CStr) : Option (Table β) := do
  if ← t.assarrIsset fuel key then
    let hash := assarrHash key
    let (prev, cur) ← t.entryAndPrevFrom key fuel (← t.bucket hash) none
    let b ← cur
    let e ← t.heap b
    let t ← match prev with
      | some p => t.setNext p e.nextPtr
      | none => some (t.setBucket hash e.nextPtr)
    some { t with heap := Function.update t.heap b none }
  else some t

/-- The inner loop of `ASSARR_FOREACH_DO` from `cur` on. The body is told the entries it has seen
before; it unsets the key of the current one or leaves the table alone. -/
def foreachFrom (fuel : ℕ) (body : List (CStr × Option β) → CStr × Option β → Bool) :
    ℕ → Option ℕ → Table β × List (CStr × Option β) → Option (Table β × List (CStr × Option β))
  | _, none, r => some r
  | 0, some _, _ => none
  | n + 1, some b, (t, seen) => do
    let e ← t.heap b
    let t ← if body seen (e.key, e.value) then t.assarrUnsetValue fuel e.key else some t
    foreachFrom fuel body n e.nextPtr (t, seen ++ [(e.key, e.value)])

/-- `ASSARR_FOREACH_DO` with the entries that its body is run for. -/
def assarrForeach (fuel : ℕ) (body : List (CStr × Option β) → CStr × Option β → Bool)
    (t : Table β) : Option (Table β × List (CStr × Option β)) :=
  (List.range buckets).foldlM (fun r i => foreachFrom fuel body fuel (r.1.data i) r) (t, [])

/-- `assarr_unset_all`. -/
def assarrUnsetAll (fuel : ℕ) (t : Table β) : Option (Table β) :=
  (t.assarrForeach fuel fun _ _ => true).map Prod.fst

end Table

/-! ## The entries in the heap -/

def nextOf (heap : ℕ → Option (Entry β)) (b : ℕ) : Option ℕ := (heap b).bind Entry.nextPtr

def contentOf (heap : ℕ → Option (Entry β)) (b : ℕ) : Option (CStr × Option β) :=
  (heap b).map fun e => (e.key, e.value)

lemma nextOf_update {heap : ℕ → Option (Entry β)} {b : ℕ} (x : Option (Entry β)) :
    nextOf (Function.update heap b x) = Function.update (nextOf heap) b (x.bind Entry.nextPtr) := by
  ext1 c
  by_cases h : c = b
  · subst h
    simp [nextOf]
  · simp [nextOf, h]

lemma contentOf_update {heap : ℕ → Option (Entry β)} {b : ℕ} (x : Option (Entry β)) :
    contentOf (Function.update heap b x) =
      Function.update (contentOf heap) b (x.map fun e => (e.key, e.value)) := by
  ext1 c
  by_cases h : c = b
  · subst h
    simp [contentOf]
  · simp [contentOf, h]

/-- A new link leaves the contents alone. -/
lemma contentOf_setNext {heap : ℕ → Option (Entry β)} {b : ℕ} {e : Entry β} (he : heap b = some e)
    (p : Option ℕ) :
    contentOf (Function.update heap b (some { e with nextPtr := p })) = contentOf heap := by
  have hself : contentOf heap b = some (e.key, e.value) := by simp [contentOf, he]
  rw [contentOf_update, Option.map_some, ← hself, Function.update_eq_self]

/-- A new value leaves the links alone. -/
lemma nextOf_setValue {heap : ℕ → Option (Entry β)} {b : ℕ} {e : Entry β} (he : heap b = some e)
    (value : Option β) :
    nextOf (Function.update heap b (some { e with value := value })) = nextOf heap := by
  have hself : nextOf heap b = e.nextPtr := by simp [nextOf, he]
  rw [nextOf_update, Option.bind_some, ← hself, Function.update_eq_self]

/-- The part of a chain from a pointer on: addresses with their keys and values. -/
structure Chain (heap : ℕ → Option (Entry β)) (p : Option ℕ)
    (cells : List (ℕ × CStr × Option β)) : Prop where
  path : Path (nextOf heap) p (cells.map Prod.fst) none
  content : ∀ c ∈ cells, contentOf heap c.1 = some c.2

namespace Chain

variable {heap : ℕ → Option (Entry β)} {p : Option ℕ} {b : ℕ} {key : CStr} {value : Option β}
  {cells : List (ℕ × CStr × Option β)} {t : Table β} {fuel : ℕ}

lemma eq_none (h : Chain heap p []) : p = none := h.path

/-- The first entry of a chain and the chain after it. -/
lemma uncons (h : Chain heap p ((b, key, value) :: cells)) :
    p = some b ∧ ∃ e, heap b = some e ∧ e.key = key ∧ e.value = value ∧
      Chain heap e.nextPtr cells := by
  obtain ⟨hp, hpath⟩ := h.path
  obtain ⟨e, he, heq⟩ := Option.map_eq_some_iff.1 (h.content _ List.mem_cons_self)
  obtain ⟨hkey, hvalue⟩ := Prod.mk.inj heq
  have hnext : nextOf heap b = e.nextPtr := by simp [nextOf, he]
  rw [hnext] at hpath
  exact ⟨hp, e, he, hkey, hvalue, hpath, fun c hc => h.content c (List.mem_cons_of_mem _ hc)⟩

lemma lastFrom (h : Chain t.heap p cells) (hfuel : cells.length ≤ fuel) (prev : Option ℕ) :
    t.lastFrom fuel p prev = some ((cells.map Prod.fst).getLast?.or prev) := by
  induction cells generalizing p prev fuel with
  | nil =>
    obtain rfl := h.eq_none
    simp [Table.lastFrom]
  | cons c cells ih =>
    obtain ⟨b, key, value⟩ := c
    obtain ⟨rfl, e, he, -, -, hrest⟩ := h.uncons
    obtain ⟨n, rfl⟩ : ∃ n, fuel = n + 1 := ⟨fuel - 1, by rw [List.length_cons] at hfuel; omega⟩
    rw [List.length_cons] at hfuel
    simp only [Table.lastFrom, he, Option.bind_eq_bind, Option.bind_some, List.map_cons]
    rw [ih hrest (by omega), List.getLast?_cons]
    cases (cells.map Prod.fst).getLast? <;> rfl

/-- A key that no entry of the chain has is not found. -/
lemma entryFrom_none (h : Chain t.heap p cells) (hfuel : cells.length ≤ fuel)
    (hkey : key ∉ cells.map fun c => c.2.1) : t.entryFrom key fuel p = some none := by
  induction cells generalizing p fuel with
  | nil =>
    obtain rfl := h.eq_none
    simp [Table.entryFrom]
  | cons c cells ih =>
    obtain ⟨b, k, value⟩ := c
    obtain ⟨rfl, e, he, hk, -, hrest⟩ := h.uncons
    rw [List.map_cons, List.mem_cons, not_or] at hkey
    obtain ⟨n, rfl⟩ : ∃ n, fuel = n + 1 := ⟨fuel - 1, by rw [List.length_cons] at hfuel; omega⟩
    rw [List.length_cons] at hfuel
    have hne : e.key ≠ key := by
      rw [hk]
      exact Ne.symm hkey.1
    simp only [Table.entryFrom, he, Option.bind_eq_bind, Option.bind_some, hne, if_false]
    exact ih hrest (by omega) hkey.2

/-- The first entry with the key is found, and the entry before it. -/
lemma entryFrom_some {l₁ l₂ : List (ℕ × CStr × Option β)}
    (h : Chain t.heap p (l₁ ++ (b, key, value) :: l₂)) (hfuel : l₁.length < fuel)
    (hkey : key ∉ l₁.map fun c => c.2.1) (prev : Option ℕ) :
    t.entryFrom key fuel p = some (some b) ∧
      t.entryAndPrevFrom key fuel p prev =
        some ((l₁.map Prod.fst).getLast?.or prev, some b) := by
  induction l₁ generalizing p prev fuel with
  | nil =>
    obtain ⟨rfl, e, he, hk, -, -⟩ := h.uncons
    obtain ⟨n, rfl⟩ : ∃ n, fuel = n + 1 := ⟨fuel - 1, by omega⟩
    simp [Table.entryFrom, Table.entryAndPrevFrom, he, hk]
  | cons c l₁ ih =>
    obtain ⟨b', k, value'⟩ := c
    obtain ⟨rfl, e, he, hk, -, hrest⟩ := h.uncons
    rw [List.map_cons, List.mem_cons, not_or] at hkey
    obtain ⟨n, rfl⟩ : ∃ n, fuel = n + 1 := ⟨fuel - 1, by omega⟩
    rw [List.length_cons] at hfuel
    have hne : e.key ≠ key := by
      rw [hk]
      exact Ne.symm hkey.1
    have hlt : l₁.length < n := by omega
    obtain ⟨hentry, hprev⟩ := ih hrest hlt hkey.2 (some b')
    simp only [Table.entryFrom, Table.entryAndPrevFrom, he, Option.bind_eq_bind, Option.bind_some,
      hne, if_false]
    rw [List.map_cons, List.getLast?_cons]
    refine ⟨hentry, ?_⟩
    rw [hprev]
    cases (l₁.map Prod.fst).getLast? <;> rfl

/-- An entry is at one place of a chain. -/
lemma ne_middle {c : ℕ × CStr × Option β} {l₁ l₂ : List (ℕ × CStr × Option β)}
    (h : Chain heap p (l₁ ++ c :: l₂)) : ∀ d ∈ l₁ ++ l₂, d.1 ≠ c.1 := by
  have hpath := h.path
  rw [List.map_append, List.map_cons] at hpath
  obtain ⟨h₁, h₂⟩ := hpath.notMem
  intro d hd heq
  obtain hd | hd := List.mem_append.1 hd
  · exact h₁ (List.mem_map.2 ⟨d, hd, heq⟩)
  · exact h₂ (List.mem_map.2 ⟨d, hd, heq⟩)

/-- Writes elsewhere do not matter. -/
lemma congr {heap' : ℕ → Option (Entry β)} (h : Chain heap p cells)
    (hnext : ∀ c ∈ cells, nextOf heap' c.1 = nextOf heap c.1)
    (hcontent : ∀ c ∈ cells, contentOf heap' c.1 = contentOf heap c.1) : Chain heap' p cells where
  path := by
    refine h.path.congr fun b hb => ?_
    obtain ⟨c, hc, rfl⟩ := List.mem_map.1 hb
    exact hnext c hc
  content := by
    intro c hc
    rw [hcontent c hc, h.content c hc]

end Chain

/-- The chains of the table are those of the array. -/
structure Represents (t : Table β) (cells : ℕ → List (ℕ × CStr × Option β))
    (a : AssArr (Option β)) : Prop where
  chain : ∀ i, Chain t.heap (t.data i) (cells i)
  data : ∀ i, (cells i).map Prod.snd = a.data i

namespace Represents

variable {t : Table β} {cells : ℕ → List (ℕ × CStr × Option β)} {a : AssArr (Option β)}
  {i j fuel malloc : ℕ} {key : CStr} {value : Option β}

lemma create : Represents (Table.assarrCreate : Table β) (fun _ => []) .create where
  chain _ := ⟨rfl, by simp⟩
  data _ := rfl

lemma keys (h : Represents t cells a) (i : ℕ) :
    (cells i).map (fun c => c.2.1) = (a.data i).map Prod.fst := by
  rw [← h.data, List.map_map]
  rfl

lemma length (h : Represents t cells a) (i : ℕ) : (cells i).length = (a.data i).length := by
  rw [← h.data, List.length_map]

lemma hashed (h : Represents t cells a) {c : ℕ × CStr × Option β} (hc : c ∈ cells i) :
    assarrHash c.2.1 = i := by
  refine a.hashed i c.2 ?_
  rw [← h.data]
  exact List.mem_map_of_mem hc

/-- An address is in one chain. -/
lemma index_eq (h : Represents t cells a) {c d : ℕ × CStr × Option β} (hc : c ∈ cells i)
    (hd : d ∈ cells j) (heq : c.1 = d.1) : i = j := by
  have hcontent := (h.chain i).content c hc
  rw [heq, (h.chain j).content d hd] at hcontent
  have hi := h.hashed hc
  have hj := h.hashed hd
  rw [Option.some.inj hcontent, hi] at hj
  exact_mod_cast hj

/-- An address that is not in use is in no chain. -/
lemma addr_ne (h : Represents t cells a) (hfree : t.heap malloc = none)
    {c : ℕ × CStr × Option β} (hc : c ∈ cells i) : c.1 ≠ malloc := by
  intro heq
  have hcontent := (h.chain i).content c hc
  rw [heq, contentOf, hfree] at hcontent
  cases hcontent

lemma bucket_eq (hhash : 0 ≤ assarrHash key) :
    t.bucket (assarrHash key) = some (t.data (assarrHash key).toNat) :=
  if_pos ⟨hhash, assarrHash_lt key⟩

/-- A key has no entry, or its entry stands in the chain of its hash. -/
lemma find (h : Represents t cells a) (hhash : 0 ≤ assarrHash key) :
    a.getValue key = none ∧ key ∉ (cells (assarrHash key).toNat).map (fun c => c.2.1) ∨
    ∃ l₁ b v l₂, a.getValue key = some v ∧ key ∉ l₁.map (fun c => c.2.1) ∧
      cells (assarrHash key).toNat = l₁ ++ (b, key, v) :: l₂ := by
  have hget : a.getValue key = (a.data (assarrHash key).toNat).lookup key := if_pos hhash
  rw [hget, h.keys]
  generalize (assarrHash key).toNat = i
  cases hlookup : (a.data i).lookup key with
  | none =>
    refine .inl ⟨rfl, ?_⟩
    rw [List.lookup_eq_none_iff] at hlookup
    intro hmem
    obtain ⟨e, he, rfl⟩ := List.mem_map.1 hmem
    simpa using hlookup e he
  | some v =>
    obtain ⟨l₁, l₂, hl, hnot⟩ := List.lookup_eq_some_iff.1 hlookup
    rw [← h.data] at hl
    obtain ⟨m₁, m₂, hcells, rfl, hm₂⟩ := List.map_eq_append_iff.1 hl
    obtain ⟨c, m₃, rfl, hc, rfl⟩ := List.map_eq_cons_iff.1 hm₂
    obtain ⟨b, k, w⟩ := c
    obtain ⟨rfl, rfl⟩ := Prod.mk.inj hc
    refine .inr ⟨m₁, b, w, m₃, rfl, ?_, hcells⟩
    intro hmem
    obtain ⟨c', hc', rfl⟩ := List.mem_map.1 hmem
    simpa using hnot c'.2 (List.mem_map_of_mem hc')

/-- The loops along the chain of a key stop at its entry. -/
lemma found {l₁ l₂ : List (ℕ × CStr × Option β)} {b : ℕ} {w : Option β}
    (h : Represents t cells a) (hhash : 0 ≤ assarrHash key)
    (hfuel : ∀ i, (a.data i).length ≤ fuel) (hkey : key ∉ l₁.map fun c => c.2.1)
    (hcells : cells (assarrHash key).toNat = l₁ ++ (b, key, w) :: l₂) :
    t.assarrGetEntry fuel key = some (some b) ∧
      t.entryAndPrevFrom key fuel (t.data (assarrHash key).toNat) none =
        some ((l₁.map Prod.fst).getLast?, some b) ∧
      ∃ e, t.heap b = some e ∧ e.key = key ∧ e.value = w := by
  have hchain := h.chain (assarrHash key).toNat
  have hlength := h.length (assarrHash key).toNat
  have hle := hfuel (assarrHash key).toNat
  rw [hcells] at hchain hlength
  have hlt : l₁.length < fuel := by
    rw [List.length_append, List.length_cons] at hlength
    omega
  obtain ⟨hentry, hprev⟩ := hchain.entryFrom_some hlt hkey none
  rw [Option.or_none] at hprev
  obtain ⟨e, he, heq⟩ := Option.map_eq_some_iff.1 (hchain.content (b, key, w) (by simp))
  obtain ⟨hek, hev⟩ := Prod.mk.inj heq
  exact ⟨by simp [Table.assarrGetEntry, bucket_eq hhash, hentry], hprev, e, he, hek, hev⟩

/-- `assarr_isset` and `assarr_get_value` read the array. -/
lemma read (h : Represents t cells a) (hhash : 0 ≤ assarrHash key)
    (hfuel : ∀ i, (a.data i).length ≤ fuel) :
    t.assarrIsset fuel key = some (a.getValue key).isSome ∧
      t.assarrGetValue fuel key = some (a.getValue key).join := by
  obtain ⟨hget, hkey⟩ | ⟨l₁, b, v, l₂, hget, hkey, hcells⟩ := h.find hhash
  · have hlength : (cells (assarrHash key).toNat).length ≤ fuel := (h.length _).trans_le (hfuel _)
    have hentry := (h.chain _).entryFrom_none hlength hkey
    simp [Table.assarrIsset, Table.assarrGetValue, Table.assarrGetEntry, bucket_eq hhash, hentry,
      hget]
  · obtain ⟨hentry, -, e, he, -, hvalue⟩ := h.found hhash hfuel hkey hcells
    simp [Table.assarrIsset, Table.assarrGetValue, hentry, hget, he, hvalue]

/-- One chain is written anew, the others are as they were. -/
lemma of_update {t' : Table β} {a' : AssArr (Option β)} {new : List (ℕ × CStr × Option β)}
    (h : Represents t cells a) (hnew : Chain t'.heap (t'.data i) new)
    (hdata : new.map Prod.snd = a'.data i)
    (hother : ∀ j, j ≠ i → Chain t'.heap (t'.data j) (cells j) ∧ a'.data j = a.data j) :
    Represents t' (Function.update cells i new) a' where
  chain := by
    intro j
    by_cases hj : j = i
    · subst hj
      rwa [Function.update_self]
    · rw [Function.update_of_ne hj]
      exact (hother j hj).1
  data := by
    intro j
    by_cases hj : j = i
    · subst hj
      rwa [Function.update_self]
    · rw [Function.update_of_ne hj, h.data, (hother j hj).2]

/-- The addresses of other chains are not those of a given one. -/
lemma notMem (h : Represents t cells a) (hj : j ≠ i) {c d : ℕ × CStr × Option β}
    (hc : c ∈ cells j) (hd : d ∈ cells i) : c.1 ≠ d.1 :=
  fun heq => hj (h.index_eq hc hd heq)

/-- An entry at an address that was not in use is in no chain. -/
lemma alloc (h : Represents t cells a) (hfree : t.heap malloc = none) (e : Entry β) (j : ℕ) :
    Chain (Function.update t.heap malloc (some e)) (t.data j) (cells j) := by
  refine (h.chain j).congr (fun c hc => ?_) fun c hc => ?_
  · rw [nextOf_update, Function.update_of_ne (h.addr_ne hfree hc)]
  · rw [contentOf_update, Function.update_of_ne (h.addr_ne hfree hc)]

/-- The link to a new entry is written behind the last one of its chain, if there is one, else to
its bucket. -/
lemma define_link (h : Represents t cells a) (hhash : 0 ≤ assarrHash key)
    (hfree : t.heap malloc = none) (hfuel : ∀ i, (a.data i).length ≤ fuel) :
    ∃ t', t.assarrDefine fuel malloc key = some t' ∧
      nextOf t'.heap = redirect (Function.update (nextOf t.heap) malloc none)
        ((cells (assarrHash key).toNat).map Prod.fst).getLast? (some malloc) ∧
      contentOf t'.heap = Function.update (contentOf t.heap) malloc (some (key, none)) ∧
      t'.data (assarrHash key).toNat =
        ((cells (assarrHash key).toNat).map Prod.fst ++ [malloc]).head? ∧
      ∀ j, j ≠ (assarrHash key).toNat → t'.data j = t.data j := by
  set i := (assarrHash key).toNat with hi
  have hlength : (cells i).length ≤ fuel := (h.length i).trans_le (hfuel i)
  have hhead := (h.chain i).path.eq_head?
  -- the heap with the new entry, still in no chain
  set heap₁ := Function.update t.heap malloc (some (⟨key, none, none⟩ : Entry β)) with hheap₁
  have hchain₁ : Chain heap₁ (t.data i) (cells i) := h.alloc hfree _ i
  have hnext₁ : nextOf heap₁ = Function.update (nextOf t.heap) malloc none := nextOf_update _
  have hcontent₁ : contentOf heap₁ =
      Function.update (contentOf t.heap) malloc (some (key, none)) := contentOf_update _
  rcases List.eq_nil_or_concat' (cells i) with hnil | ⟨l, d, hconcat⟩
  · rw [hnil, List.map_nil, List.head?_nil] at hhead
    refine ⟨⟨heap₁, Function.update t.data i (some malloc), t.count + 1⟩, ?_, ?_, hcontent₁, ?_, ?_⟩
    · simp only [Table.assarrDefine, bucket_eq hhash, Option.bind_eq_bind, Option.bind_some, ← hi,
        hhead, Table.setBucket]
      rfl
    · rw [hnext₁, hnil]
      rfl
    · simp [hnil]
    · intro j hj
      exact Function.update_of_ne hj _ _
  · have hlast : ((cells i).map Prod.fst).getLast? = some d.1 := by simp [hconcat]
    obtain ⟨b, hb⟩ : ∃ b, t.data i = some b := by
      rw [hhead, hconcat]
      cases l <;> simp
    obtain ⟨e, he, -⟩ := Option.map_eq_some_iff.1 (hchain₁.content d (by simp [hconcat]))
    have hprev := @Chain.lastFrom _ _ _ ⟨heap₁, t.data, t.count + 1⟩ _ hchain₁ hlength none
    rw [hlast, hb, Option.some_or] at hprev
    refine ⟨⟨Function.update heap₁ d.1 (some { e with nextPtr := some malloc }), t.data,
      t.count + 1⟩, ?_, ?_, ?_, ?_, fun _ _ => rfl⟩
    · simp only [Table.assarrDefine, bucket_eq hhash, Option.bind_eq_bind, Option.bind_some, ← hi,
        hb, ← hheap₁, hprev, Table.setNext, he, Option.map_some]
    · rw [hlast, ← hnext₁]
      exact nextOf_update _
    · rw [contentOf_setNext he, hcontent₁]
    · dsimp only
      rw [hhead, hconcat]
      simp

/-- A new entry is the last one of its chain; its value is NULL. -/
lemma define {a' : AssArr (Option β)} (h : Represents t cells a) (hfree : t.heap malloc = none)
    (hfuel : ∀ i, (a.data i).length ≤ fuel) (hget : a.getValue key = none)
    (ha' : a.setValue key none = some a') :
    ∃ t', t.assarrDefine fuel malloc key = some t' ∧
      Represents t' (Function.update cells (assarrHash key).toNat
        (cells (assarrHash key).toNat ++ [(malloc, key, none)])) a' := by
  obtain ⟨hhash, hdata⟩ := AssArr.setValue_data ha'
  have hkey : key ∉ (cells (assarrHash key).toNat).map fun c => c.2.1 := by
    obtain ⟨-, hkey⟩ | ⟨l₁, b, v, l₂, hsome, -⟩ := h.find hhash
    · exact hkey
    · rw [hget] at hsome
      cases hsome
  obtain ⟨t', ht', hnext, hcontent, hhead, hbuckets⟩ := h.define_link hhash hfree hfuel
  refine ⟨t', ht', ?_⟩
  set i := (assarrHash key).toNat
  have hfresh : malloc ∉ (cells i).map Prod.fst := by
    intro hmem
    obtain ⟨c, hc, heq⟩ := List.mem_map.1 hmem
    exact h.addr_ne hfree hc heq
  refine h.of_update ⟨?_, ?_⟩ ?_ fun j hj => ⟨?_, ?_⟩
  · rw [hnext, hhead, List.map_append]
    exact ((h.chain i).path.update_of_notMem hfresh).concat_update hfresh
      (Function.update_self _ _ _)
  · intro c hc
    rw [hcontent]
    obtain hc | hc := List.mem_append.1 hc
    · rw [Function.update_of_ne (h.addr_ne hfree hc), (h.chain i).content c hc]
    · obtain rfl := List.mem_singleton.1 hc
      rw [Function.update_self]
  · rw [hdata, Function.update_self, put_of_notMem (by rwa [← h.keys]), List.map_append, h.data]
    rfl
  · rw [hbuckets j hj]
    refine (h.chain j).congr (fun c hc => ?_) fun c hc => ?_
    · rw [hnext, redirect_of_ne, Function.update_of_ne (h.addr_ne hfree hc)]
      intro hlast
      obtain ⟨d, hd, heq⟩ := List.mem_map.1 (List.mem_of_getLast? hlast)
      exact h.notMem hj hc hd heq.symm
    · rw [hcontent, Function.update_of_ne (h.addr_ne hfree hc)]
  · rw [hdata, Function.update_of_ne hj]

/-- The value of an entry is written. -/
lemma write {a' : AssArr (Option β)} {l₁ l₂ : List (ℕ × CStr × Option β)} {b : ℕ} {w : Option β}
    {e : Entry β} (h : Represents t cells a)
    (hcells : cells (assarrHash key).toNat = l₁ ++ (b, key, w) :: l₂)
    (hkey : key ∉ l₁.map fun c => c.2.1) (he : t.heap b = some e)
    (ha' : a.setValue key value = some a') :
    Represents { t with heap := Function.update t.heap b (some { e with value := value }) }
      (Function.update cells (assarrHash key).toNat (l₁ ++ (b, key, value) :: l₂)) a' := by
  obtain ⟨-, hdata⟩ := AssArr.setValue_data ha'
  set i := (assarrHash key).toNat
  have hchain := h.chain i
  have hmem : (b, key, w) ∈ cells i := by simp [hcells]
  have hekey : e.key = key := by
    have hcontent := hchain.content _ hmem
    simp only [contentOf, he, Option.map_some, Option.some.injEq, Prod.mk.injEq] at hcontent
    exact hcontent.1
  have hnext : nextOf (Function.update t.heap b (some { e with value := value })) =
      nextOf t.heap := nextOf_setValue he value
  have hcontent : contentOf (Function.update t.heap b (some { e with value := value })) =
      Function.update (contentOf t.heap) b (some (key, value)) := by
    rw [contentOf_update, Option.map_some, hekey]
  rw [hcells] at hchain
  refine h.of_update ⟨?_, ?_⟩ ?_ fun j hj => ⟨?_, ?_⟩
  · rw [hnext]
    simpa using hchain.path
  · intro c hc
    rw [hcontent]
    obtain rfl | hc := List.mem_cons.1 (List.perm_middle.subset hc)
    · rw [Function.update_self]
    · rw [Function.update_of_ne (hchain.ne_middle c hc)]
      exact hchain.content c (List.perm_middle.symm.subset (List.mem_cons_of_mem _ hc))
  · have hold : a.data i = l₁.map Prod.snd ++ (key, w) :: l₂.map Prod.snd := by
      rw [← h.data, hcells, List.map_append, List.map_cons]
    have hkey' : key ∉ (l₁.map Prod.snd).map Prod.fst := by
      rwa [List.map_map]
    rw [hdata, Function.update_self, hold, put_append hkey', List.map_append, List.map_cons]
  · refine (h.chain j).congr (fun c _ => by rw [hnext]) fun c hc => ?_
    rw [hcontent, Function.update_of_ne (h.notMem hj hc hmem)]
  · rw [hdata, Function.update_of_ne hj]

/-- The value of a key that is set. -/
lemma setValue_of_isset {a' : AssArr (Option β)} (h : Represents t cells a)
    (hfuel : ∀ i, (a.data i).length ≤ fuel) (hget : a.getValue key ≠ none)
    (ha' : a.setValue key value = some a') :
    ∃ b e cells', t.assarrGetEntry fuel key = some (some b) ∧ t.heap b = some e ∧
      Represents { t with heap := Function.update t.heap b (some { e with value := value }) }
        cells' a' := by
  have hhash := (AssArr.setValue_data ha').1
  obtain ⟨hnone, -⟩ | ⟨l₁, b, v, l₂, -, hkey, hcells⟩ := h.find hhash
  · exact absurd hnone hget
  · obtain ⟨hentry, -, e, he, -⟩ := h.found hhash hfuel hkey hcells
    exact ⟨b, e, _, hentry, he, h.write hcells hkey he ha'⟩

lemma setValue {a' : AssArr (Option β)} (h : Represents t cells a) (hfree : t.heap malloc = none)
    (hfuel : ∀ i, (a.data i).length < fuel) (ha' : a.setValue key value = some a') :
    ∃ t' cells', t.assarrSetValue fuel malloc key value = some t' ∧ Represents t' cells' a' := by
  have hhash := (AssArr.setValue_data ha').1
  have hle : ∀ i, (a.data i).length ≤ fuel := fun i => (hfuel i).le
  obtain ⟨hisset, -⟩ := h.read hhash hle
  by_cases hget : a.getValue key = none
  · -- the new entry is found again, and its value is written
    obtain ⟨a₁, ha₁⟩ := Option.isSome_iff_exists.1 (AssArr.setValue_isSome (v := none).2 hhash)
    obtain ⟨t₁, ht₁, h₁⟩ := h.define hfree hle hget ha₁
    have hfuel₁ : ∀ i, (a₁.data i).length ≤ fuel := fun i =>
      (AssArr.length_setValue ha₁ i).trans (hfuel i)
    have hget₁ : a₁.getValue key ≠ none := by
      rw [AssArr.getValue_setValue ha₁, if_pos rfl]
      simp
    obtain ⟨b, e, cells', hentry, he, hrep⟩ :=
      h₁.setValue_of_isset hfuel₁ hget₁ (AssArr.setValue_setValue ha₁ ha')
    refine ⟨_, cells', ?_, hrep⟩
    simp [Table.assarrSetValue, hisset, hget, ht₁, hentry, he]
  · obtain ⟨b, e, cells', hentry, he, hrep⟩ := h.setValue_of_isset hle hget ha'
    have hsome : (a.getValue key).isSome = true := Option.isSome_iff_ne_none.2 hget
    refine ⟨_, cells', ?_, hrep⟩
    simp [Table.assarrSetValue, hisset, hsome, hentry, he]

/-- The link to the entry of a key is written over before the entry is freed. -/
lemma unset_link {l₁ l₂ : List (ℕ × CStr × Option β)} {b : ℕ} {w : Option β}
    (h : Represents t cells a) (hhash : 0 ≤ assarrHash key)
    (hfuel : ∀ i, (a.data i).length ≤ fuel) (hget : a.getValue key = some w)
    (hkey : key ∉ l₁.map fun c => c.2.1)
    (hcells : cells (assarrHash key).toNat = l₁ ++ (b, key, w) :: l₂) :
    ∃ t₂ : Table β,
      t.assarrUnsetValue fuel key = some { t₂ with heap := Function.update t₂.heap b none } ∧
      nextOf t₂.heap = redirect (nextOf t.heap) (l₁.map Prod.fst).getLast? (nextOf t.heap b) ∧
      contentOf t₂.heap = contentOf t.heap ∧
      t₂.data (assarrHash key).toNat = ((l₁ ++ l₂).map Prod.fst).head? ∧
      ∀ j, j ≠ (assarrHash key).toNat → t₂.data j = t.data j := by
  obtain ⟨hisset, -⟩ := h.read hhash hfuel
  rw [hget, Option.isSome_some] at hisset
  obtain ⟨-, hprev, e, he, -⟩ := h.found hhash hfuel hkey hcells
  have hnext : nextOf t.heap b = e.nextPtr := by simp [nextOf, he]
  have hchain := h.chain (assarrHash key).toNat
  rw [hcells] at hchain
  have hpath := hchain.path
  rw [List.map_append, List.map_cons] at hpath
  rcases List.eq_nil_or_concat' l₁ with rfl | ⟨l, d, rfl⟩
  · refine ⟨t.setBucket (assarrHash key) e.nextPtr, ?_, rfl, rfl, ?_, ?_⟩
    · simp only [List.map_nil, List.getLast?_nil] at hprev
      simp [Table.assarrUnsetValue, hisset, bucket_eq hhash, hprev, he]
    · rw [← hnext, hpath.link_eq]
      simp [Table.setBucket]
    · intro j hj
      exact Function.update_of_ne hj _ _
  · obtain ⟨ed, hed, -⟩ := Option.map_eq_some_iff.1 (hchain.content d (by simp))
    refine ⟨⟨Function.update t.heap d.1 (some { ed with nextPtr := e.nextPtr }), t.data,
      t.count⟩, ?_, ?_, ?_, ?_, fun _ _ => rfl⟩
    · rw [List.map_append, List.map_singleton, List.getLast?_concat] at hprev
      simp [Table.assarrUnsetValue, hisset, bucket_eq hhash, hprev, he, Table.setNext, hed]
    · rw [List.map_append, List.map_singleton, List.getLast?_concat, hnext]
      exact nextOf_update _
    · exact contentOf_setNext hed e.nextPtr
    · dsimp only
      rw [hpath.eq_head?]
      simp

/-- The entry of a key is taken out of its chain. -/
lemma unset {l₁ l₂ : List (ℕ × CStr × Option β)} {b : ℕ} {w : Option β}
    (h : Represents t cells a) (hhash : 0 ≤ assarrHash key)
    (hfuel : ∀ i, (a.data i).length ≤ fuel)
    (hcells : cells (assarrHash key).toNat = l₁ ++ (b, key, w) :: l₂) :
    ∃ t', t.assarrUnsetValue fuel key = some t' ∧
      Represents t' (Function.update cells (assarrHash key).toNat (l₁ ++ l₂))
        (a.unsetValue key) := by
  have hold : a.data (assarrHash key).toNat =
      l₁.map Prod.snd ++ (key, w) :: l₂.map Prod.snd := by
    rw [← h.data, hcells, List.map_append, List.map_cons]
  have hnodup := a.nodup (assarrHash key).toNat
  rw [hold] at hnodup
  have hkey : key ∉ l₁.map fun c => c.2.1 := by
    have hmiddle := hnodup
    rw [List.map_append, List.map_cons, List.nodup_middle, List.nodup_cons, List.mem_append,
      not_or, List.map_map] at hmiddle
    exact hmiddle.1.1
  have hget : a.getValue key = some w := by
    have hlookup : a.getValue key = (a.data (assarrHash key).toNat).lookup key := if_pos hhash
    rw [hlookup, lookup_eq_some_iff_mem (a.nodup _), hold]
    simp
  obtain ⟨t₂, ht₂, hnext₂, hcontent₂, hhead₂, hother₂⟩ :=
    h.unset_link hhash hfuel hget hkey hcells
  set i := (assarrHash key).toNat with hi
  have hmem : (b, key, w) ∈ cells i := by simp [hcells]
  have hchain := h.chain i
  rw [hcells] at hchain
  have hpath := hchain.path
  rw [List.map_append, List.map_cons] at hpath
  obtain ⟨hb₁, hb₂⟩ := hpath.notMem
  refine ⟨_, ht₂, h.of_update ⟨?_, ?_⟩ ?_ fun j hj => ⟨?_, ?_⟩⟩
  · dsimp only
    rw [nextOf_update, hnext₂, hhead₂, List.map_append]
    refine hpath.unlink.update_of_notMem ?_
    rw [List.mem_append]
    exact not_or.2 ⟨hb₁, hb₂⟩
  · intro c hc
    dsimp only
    rw [contentOf_update, hcontent₂, Function.update_of_ne (hchain.ne_middle c hc)]
    exact hchain.content c (List.perm_middle.symm.subset (List.mem_cons_of_mem _ hc))
  · simp only [AssArr.unsetValue, hold, remove_append hnodup, List.map_append]
  · dsimp only
    rw [hother₂ j hj]
    refine (h.chain j).congr (fun c hc => ?_) fun c hc => ?_
    · have hcb : c.1 ≠ b := h.notMem hj hc hmem
      rw [nextOf_update, hnext₂, Function.update_of_ne hcb, redirect_of_ne]
      intro hlast
      obtain ⟨d, hd, heq⟩ := List.mem_map.1 (List.mem_of_getLast? hlast)
      exact h.notMem hj hc (by simp [hcells, hd]) heq.symm
    · rw [contentOf_update, hcontent₂, Function.update_of_ne (h.notMem hj hc hmem)]
  · exact AssArr.unsetValue_data_of_ne (by omega)

end Represents

/-! ## Going through all entries -/

/-- The array after a body has been run for some of its entries. -/
def sweep (body : List (CStr × Option β) → CStr × Option β → Bool) :
    List (CStr × Option β) → List (CStr × Option β) → AssArr (Option β) → AssArr (Option β)
  | _, [], a => a
  | seen, e :: es, a => sweep body (seen ++ [e]) es (if body seen e then a.unsetValue e.1 else a)

section sweep

variable {body : List (CStr × Option β) → CStr × Option β → Bool} {a : AssArr (Option β)}
  {seen es fs : List (CStr × Option β)}

lemma sweep_append :
    sweep body seen (es ++ fs) a = sweep body (seen ++ es) fs (sweep body seen es a) := by
  induction es generalizing seen a with
  | nil => simp [sweep]
  | cons e es ih => simp [sweep, ih]

lemma sweep_data_of_ne {j : ℕ} (h : ∀ e ∈ es, assarrHash e.1 ≠ j) :
    (sweep body seen es a).data j = a.data j := by
  induction es generalizing seen a with
  | nil => rfl
  | cons e es ih =>
    rw [sweep, ih fun f hf => h f (List.mem_cons_of_mem e hf)]
    split
    · exact AssArr.unsetValue_data_of_ne (h e List.mem_cons_self)
    · rfl

lemma length_sweep_data (j : ℕ) : ((sweep body seen es a).data j).length ≤ (a.data j).length := by
  induction es generalizing seen a with
  | nil => exact Nat.le_refl _
  | cons e es ih =>
    rw [sweep]
    refine ih.trans ?_
    split
    · exact List.length_filter_le _ _
    · exact Nat.le_refl _

lemma getValue_sweep_true (key : CStr) :
    (sweep (fun _ _ => true) seen es a).getValue key =
      if key ∈ es.map Prod.fst then none else a.getValue key := by
  induction es generalizing seen a with
  | nil => rfl
  | cons e es ih =>
    rw [sweep, ih, if_pos rfl, AssArr.getValue_unsetValue, List.map_cons]
    by_cases hkey : key = e.1
    · simp [hkey]
    · rw [if_neg hkey]
      simp only [List.mem_cons, hkey, false_or]

end sweep

namespace Represents

variable {t : Table β} {cells : ℕ → List (ℕ × CStr × Option β)} {a : AssArr (Option β)}
  {i fuel n : ℕ} {body : List (CStr × Option β) → CStr × Option β → Bool}
  {seen : List (CStr × Option β)}

/-- Whether the body unsets the key of an entry or not, the chain after the entry stays. -/
lemma runBody {kept rest : List (ℕ × CStr × Option β)} {b : ℕ} {key : CStr} {value : Option β}
    (h : Represents t cells a) (hfuel : ∀ i, (a.data i).length ≤ fuel)
    (hcells : cells i = kept ++ (b, key, value) :: rest) :
    ∃ t₁ cells₁ kept₁,
      (if body seen (key, value) then t.assarrUnsetValue fuel key else some t) = some t₁ ∧
      Represents t₁ cells₁ (if body seen (key, value) then a.unsetValue key else a) ∧
      cells₁ i = kept₁ ++ rest := by
  have hindex : assarrHash key = i := h.hashed (c := (b, key, value)) (by simp [hcells])
  by_cases hbody : body seen (key, value) = true
  · have hhash : 0 ≤ assarrHash key := by omega
    have htoNat : (assarrHash key).toNat = i := by omega
    obtain ⟨t₁, ht₁, h₁⟩ := h.unset hhash hfuel (htoNat.symm ▸ hcells)
    rw [htoNat] at h₁
    exact ⟨t₁, _, kept, by simpa [hbody] using ht₁, by simpa [hbody] using h₁,
      Function.update_self _ _ _⟩
  · exact ⟨t, cells, kept ++ [(b, key, value)], by simp [hbody], by simpa [hbody] using h,
      by simpa using hcells⟩

/-- The link of an entry is read before its key may be unset, so the rest of the chain is gone
through as it was. -/
lemma foreachFrom {kept rest : List (ℕ × CStr × Option β)} (h : Represents t cells a)
    (hfuel : ∀ i, (a.data i).length ≤ fuel) (hcells : cells i = kept ++ rest)
    (hn : rest.length ≤ n) :
    ∃ t' cells', Table.foreachFrom fuel body n (rest.map Prod.fst).head? (t, seen) =
        some (t', seen ++ rest.map Prod.snd) ∧
      Represents t' cells' (sweep body seen (rest.map Prod.snd) a) := by
  induction rest generalizing t cells a kept seen n with
  | nil => exact ⟨t, cells, by simp [Table.foreachFrom], h⟩
  | cons c rest ih =>
    obtain ⟨b, key, value⟩ := c
    obtain ⟨n, rfl⟩ : ∃ m, n = m + 1 := ⟨n - 1, by rw [List.length_cons] at hn; omega⟩
    rw [List.length_cons] at hn
    have hchain := h.chain i
    rw [hcells] at hchain
    have hpath := hchain.path
    rw [List.map_append, List.map_cons] at hpath
    obtain ⟨e, he, heq⟩ := Option.map_eq_some_iff.1 (hchain.content (b, key, value) (by simp))
    obtain ⟨hkey, hvalue⟩ := Prod.mk.inj heq
    have hnext : e.nextPtr = (rest.map Prod.fst).head? := by
      rw [← hpath.link_eq]
      simp [nextOf, he]
    obtain ⟨t₁, cells₁, kept₁, ht₁, h₁, hcells₁⟩ :=
      @runBody _ _ _ _ _ _ body seen _ _ _ _ _ h hfuel hcells
    have hfuel₁ : ∀ i,
        ((if body seen (key, value) then a.unsetValue key else a).data i).length ≤ fuel :=
      fun j => (@length_sweep_data _ body a seen [(key, value)] j).trans (hfuel j)
    obtain ⟨t', cells', ht', h'⟩ := @ih _ _ _ n (seen ++ [(key, value)]) _ h₁ hfuel₁ hcells₁
      (Nat.le_of_succ_le_succ hn)
    have hstep : Table.foreachFrom fuel body (n + 1) (some b) (t, seen) =
        (if body seen (key, value) then t.assarrUnsetValue fuel key else some t).bind
          fun t => Table.foreachFrom fuel body n e.nextPtr (t, seen ++ [(key, value)]) := by
      simp only [Table.foreachFrom, he, Option.bind_eq_bind, Option.bind_some, hkey, hvalue]
      split <;> rfl
    refine ⟨t', cells', ?_, h'⟩
    rw [List.map_cons, List.head?_cons, hstep, ht₁, Option.bind_some, hnext, ht',
      List.append_assoc]
    rfl

/-- The buckets are gone through one after the other; what happens in one does not touch the
others. -/
lemma foreachBuckets {is : List ℕ} (h : Represents t cells a)
    (hfuel : ∀ i, (a.data i).length ≤ fuel) (his : is.Nodup) :
    ∃ t' cells', is.foldlM
        (fun r i => Table.foreachFrom fuel body fuel (r.1.data i) r) (t, seen) =
        some (t', seen ++ is.flatMap a.data) ∧
      Represents t' cells' (sweep body seen (is.flatMap a.data) a) := by
  induction is generalizing t cells a seen with
  | nil => exact ⟨t, cells, by simp, h⟩
  | cons i is ih =>
    obtain ⟨hi, his⟩ := List.nodup_cons.1 his
    have hlength : (cells i).length ≤ fuel := (h.length i).trans_le (hfuel i)
    obtain ⟨t₁, cells₁, ht₁, h₁⟩ :=
      @foreachFrom _ t cells a i fuel fuel body seen [] (cells i) h hfuel rfl hlength
    rw [← (h.chain i).path.eq_head?, h.data] at ht₁
    rw [h.data] at h₁
    obtain ⟨t', cells', ht', h'⟩ := @ih t₁ cells₁ _ (seen ++ a.data i) h₁
      (fun j => (length_sweep_data j).trans (hfuel j)) his
    have hrest : is.flatMap (sweep body seen (a.data i) a).data = is.flatMap a.data := by
      refine List.flatMap_congr fun j hj => sweep_data_of_ne fun e he => ?_
      rw [a.hashed i e he]
      rintro heq
      obtain rfl : i = j := by exact_mod_cast heq
      exact hi hj
    rw [hrest] at ht' h'
    refine ⟨t', cells', ?_, ?_⟩
    · simp only [List.foldlM_cons, ht₁, Option.bind_eq_bind, Option.bind_some, List.flatMap_cons]
      rw [ht', List.append_assoc]
    · rw [List.flatMap_cons, sweep_append]
      exact h'

/-- `ASSARR_FOREACH_DO` runs its body for every entry, in the order of the buckets. -/
lemma foreach (h : Represents t cells a) (hfuel : ∀ i, (a.data i).length ≤ fuel)
    (body : List (CStr × Option β) → CStr × Option β → Bool) :
    ∃ t' cells', t.assarrForeach fuel body = some (t', a.entries) ∧
      Represents t' cells' (sweep body [] a.entries a) := by
  obtain ⟨t', cells', ht', h'⟩ :=
    @foreachBuckets _ t cells a fuel body [] (List.range buckets) h hfuel List.nodup_range
  rw [List.nil_append] at ht'
  unfold Table.assarrForeach AssArr.entries
  exact ⟨t', cells', ht', h'⟩

lemma unsetAll (h : Represents t cells a) (hfuel : ∀ i, (a.data i).length ≤ fuel) :
    ∃ t' cells' a', t.assarrUnsetAll fuel = some t' ∧ Represents t' cells' a' ∧
      (∀ key, a'.getValue key = none) ∧ ∀ i, (a'.data i).length ≤ (a.data i).length := by
  obtain ⟨t', cells', ht', h'⟩ := h.foreach hfuel fun _ _ => true
  refine ⟨t', cells', _, by simp [Table.assarrUnsetAll, ht'], h', fun key => ?_,
    fun i => length_sweep_data i⟩
  rw [getValue_sweep_true]
  split
  · rfl
  · rename_i hkey
    cases hget : a.getValue key with
    | none => rfl
    | some v =>
      have hmem : (key, v) ∈ a.entries := AssArr.mem_entries.2 hget
      exact absurd (List.mem_map_of_mem hmem) hkey

end Represents

/-! ## Operations and the map they work on -/

/-- Operations with their arguments; `malloc` is the address that a new entry gets. -/
inductive Op (β : Type)
  | set (key : CStr) (value : Option β) (malloc : ℕ)
  | unset (key : CStr)
  | unsetAll

/-- One operation on the entries. -/
def Op.exec (fuel : ℕ) (t : Table β) : Op β → Option (Table β)
  | .set key value malloc => t.assarrSetValue fuel malloc key value
  | .unset key => t.assarrUnsetValue fuel key
  | .unsetAll => t.assarrUnsetAll fuel

/-- What the operations mean for a map from keys to values. -/
def Op.onMap (μ : CStr → Option (Option β)) : Op β → CStr → Option (Option β)
  | .set key value _ => Function.update μ key (some value)
  | .unset key => Function.update μ key none
  | .unsetAll => fun _ => none

/-- The hash of the key is a bucket, and `malloc` gives an address that is not in use. -/
def Op.legal (t : Table β) : Op β → Bool
  | .set key _ malloc => decide (0 ≤ assarrHash key) && (t.heap malloc).isNone
  | .unset key => decide (0 ≤ assarrHash key)
  | .unsetAll => true

/-- A sequence of operations on the entries. -/
def execAll (fuel : ℕ) : Table β → List (Op β) → Option (Table β)
  | t, [] => some t
  | t, op :: ops => (op.exec fuel t).bind fun t => execAll fuel t ops

/-- Every operation of a sequence is legal in the table that it finds. -/
def legalAll (fuel : ℕ) : Table β → List (Op β) → Bool
  | _, [] => true
  | t, op :: ops => op.legal t && match op.exec fuel t with
    | none => true
    | some t => legalAll fuel t ops

namespace Represents

variable {t : Table β} {cells : ℕ → List (ℕ × CStr × Option β)} {a : AssArr (Option β)}
  {fuel n : ℕ}

/-- One operation on the entries is the operation on the map; a chain gets at most one entry
longer. -/
lemma step (h : Represents t cells a) {op : Op β} (hop : op.legal t = true)
    (hlength : ∀ i, (a.data i).length ≤ n) (hfuel : n < fuel) :
    ∃ t' cells' a', op.exec fuel t = some t' ∧ Represents t' cells' a' ∧
      a'.getValue = op.onMap a.getValue ∧ ∀ i, (a'.data i).length ≤ n + 1 := by
  have hle : ∀ i, (a.data i).length ≤ fuel := fun i => (hlength i).trans hfuel.le
  cases op with
  | set key value malloc =>
    obtain ⟨hhash, hfree⟩ : 0 ≤ assarrHash key ∧ t.heap malloc = none := by
      simpa [Op.legal] using hop
    obtain ⟨a', ha'⟩ := Option.isSome_iff_exists.1 (AssArr.setValue_isSome.2 hhash)
    obtain ⟨t', cells', ht', h'⟩ := h.setValue hfree (fun i => (hlength i).trans_lt hfuel) ha'
    refine ⟨t', cells', a', ht', h', ?_, fun i =>
      (AssArr.length_setValue ha' i).trans (Nat.succ_le_succ (hlength i))⟩
    funext key'
    rw [AssArr.getValue_setValue ha', Op.onMap, Function.update_apply]
  | unset key =>
    have hhash : 0 ≤ assarrHash key := by simpa [Op.legal] using hop
    obtain ⟨t', cells', ht', h'⟩ : ∃ t' cells', t.assarrUnsetValue fuel key = some t' ∧
        Represents t' cells' (a.unsetValue key) := by
      obtain ⟨hget, -⟩ | ⟨l₁, b, v, l₂, -, -, hcells⟩ := h.find hhash
      · obtain ⟨hisset, -⟩ := h.read hhash hle
        rw [AssArr.unsetValue_eq_self hget]
        exact ⟨t, cells, by simp [Table.assarrUnsetValue, hisset, hget], h⟩
      · obtain ⟨t', ht', h'⟩ := h.unset hhash hle hcells
        exact ⟨t', _, ht', h'⟩
    refine ⟨t', cells', _, ht', h', ?_, fun i =>
      ((List.length_filter_le _ _).trans (hlength i)).trans (Nat.le_succ n)⟩
    funext key'
    rw [AssArr.getValue_unsetValue, Op.onMap, Function.update_apply]
  | unsetAll =>
    obtain ⟨t', cells', a', ht', h', hnone, hle'⟩ := h.unsetAll hle
    exact ⟨t', cells', a', ht', h', funext hnone, fun i =>
      ((hle' i).trans (hlength i)).trans (Nat.le_succ n)⟩

/-- A legal sequence of operations on the entries is the sequence on the map. -/
lemma run (h : Represents t cells a) {ops : List (Op β)} (hops : legalAll fuel t ops = true)
    (hlength : ∀ i, (a.data i).length ≤ n) (hfuel : n + ops.length ≤ fuel) :
    ∃ t' cells' a', execAll fuel t ops = some t' ∧ Represents t' cells' a' ∧
      a'.getValue = ops.foldl Op.onMap a.getValue ∧ ∀ i, (a'.data i).length ≤ fuel := by
  induction ops generalizing t cells a n with
  | nil => exact ⟨t, cells, a, rfl, h, rfl, fun i => (hlength i).trans hfuel⟩
  | cons op ops ih =>
    rw [List.length_cons] at hfuel
    rw [legalAll, Bool.and_eq_true] at hops
    have hlt : n < fuel := by omega
    obtain ⟨t₁, cells₁, a₁, ht₁, h₁, hget₁, hlength₁⟩ := h.step hops.1 hlength hlt
    rw [ht₁] at hops
    obtain ⟨t', cells', a', ht', h', hget', hle⟩ := ih h₁ hops.2 hlength₁ (by omega)
    refine ⟨t', cells', a', ?_, h', ?_, hle⟩
    · rw [execAll, ht₁, Option.bind_some, ht']
    · rw [hget', hget₁, List.foldl_cons]

end Represents

/-- The table is the map: the links spell chains of entries, every entry stands in the chain of its
hash and no key has two, the two readers agree with the map, every binding is seen once by a loop
over all entries whatever its body unsets, and a table without bindings has no entries. -/
structure IsMap (fuel : ℕ) (t : Table β) (μ : CStr → Option (Option β)) : Prop where
  chains : ∃ addrs : ℕ → List ℕ, (∀ i, Path (nextOf t.heap) (t.data i) (addrs i) none) ∧
    (∀ i, ∀ b ∈ addrs i, ∃ e, t.heap b = some e ∧ assarrHash e.key = i) ∧
    ∀ i j b c e f, b ∈ addrs i → c ∈ addrs j → t.heap b = some e → t.heap c = some f →
      e.key = f.key → b = c
  isset : ∀ key, 0 ≤ assarrHash key → t.assarrIsset fuel key = some (μ key).isSome
  getValue : ∀ key, 0 ≤ assarrHash key → t.assarrGetValue fuel key = some (μ key).join
  foreach : ∀ body, ∃ t' seen, t.assarrForeach fuel body = some (t', seen) ∧
    (seen.map Prod.fst).Nodup ∧ ∀ key value, (key, value) ∈ seen ↔ μ key = some value
  empty : (∀ key, μ key = none) → ∀ i, t.data i = none

namespace Represents

variable {t : Table β} {cells : ℕ → List (ℕ × CStr × Option β)} {a : AssArr (Option β)}
  {fuel : ℕ}

/-- Two entries of one key are in one chain, at one place of it. -/
lemma addr_unique (h : Represents t cells a) {i j : ℕ} {c d : ℕ × CStr × Option β}
    (hc : c ∈ cells i) (hd : d ∈ cells j) (hkey : c.2.1 = d.2.1) : c.1 = d.1 := by
  obtain rfl : i = j := by
    have hi := h.hashed hc
    have hj := h.hashed hd
    rw [hkey, hj] at hi
    exact_mod_cast hi.symm
  have hnodup := a.nodup i
  rw [← h.keys] at hnodup
  rw [List.inj_on_of_nodup_map hnodup hc hd hkey]

lemma isMap (h : Represents t cells a) (hfuel : ∀ i, (a.data i).length ≤ fuel) :
    IsMap fuel t a.getValue where
  chains := by
    refine ⟨fun i => (cells i).map Prod.fst, fun i => (h.chain i).path, ?_, ?_⟩
    · intro i b hb
      obtain ⟨c, hc, rfl⟩ := List.mem_map.1 hb
      obtain ⟨e, he, heq⟩ := Option.map_eq_some_iff.1 ((h.chain i).content c hc)
      refine ⟨e, he, ?_⟩
      rw [← h.hashed hc, ← heq]
    · intro i j b c e f hb hc he hf hkey
      obtain ⟨x, hx, rfl⟩ := List.mem_map.1 hb
      obtain ⟨y, hy, rfl⟩ := List.mem_map.1 hc
      have hxe := (h.chain i).content x hx
      have hyf := (h.chain j).content y hy
      rw [contentOf, he, Option.map_some, Option.some.injEq] at hxe
      rw [contentOf, hf, Option.map_some, Option.some.injEq] at hyf
      exact h.addr_unique hx hy (by rw [← hxe, ← hyf]; exact hkey)
  isset key hhash := (h.read hhash hfuel).1
  getValue key hhash := (h.read hhash hfuel).2
  foreach := by
    intro body
    obtain ⟨t', -, ht', -⟩ := h.foreach hfuel body
    exact ⟨t', a.entries, ht', a.nodup_entries, fun key value => AssArr.mem_entries⟩
  empty := by
    intro hnone i
    rw [(h.chain i).path.eq_head?, List.head?_eq_none_iff, List.map_eq_nil_iff,
      List.eq_nil_iff_forall_not_mem]
    intro c hc
    have hmem : c.2 ∈ a.entries := by
      refine List.mem_flatMap.2 ⟨i, List.mem_range.2 ?_, ?_⟩
      · have hlt := assarrHash_lt c.2.1
        rw [h.hashed hc] at hlt
        exact_mod_cast hlt
      · rw [← h.data]
        exact List.mem_map_of_mem hc
    rw [AssArr.mem_entries, hnone] at hmem
    cases hmem

end Represents

/-- From `assarr_create` on, every legal sequence of operations goes through and leaves the table
of the map that the same updates give. -/
theorem assarr_isMap {ops : List (Op β)} {fuel : ℕ}
    (hops : legalAll fuel Table.assarrCreate ops = true) (hfuel : ops.length ≤ fuel) :
    ∃ t, execAll fuel Table.assarrCreate ops = some t ∧
      IsMap fuel t (ops.foldl Op.onMap fun _ => none) := by
  obtain ⟨t, cells, a, ht, h, hget, hle⟩ :=
    Represents.create.run (n := 0) hops (fun _ => Nat.le_refl 0) (by omega)
  refine ⟨t, ht, ?_⟩
  have hcreate : (AssArr.create : AssArr (Option β)).getValue = fun _ => none :=
    funext fun _ => AssArr.getValue_create
  rw [← hcreate, ← hget]
  exact h.isMap hle

/-- Two keys of one bucket: the first is unset from the front of its chain and set again. -/
def sampleOps : List (Op ℕ) :=
  [.set "az".toList (some 1) 8, .set "bO".toList (some 2) 16, .unset "az".toList,
    .set "az".toList none 8, .set "bO".toList (some 3) 24]

theorem assarr_isMap_sampleOps :
    ∃ t, execAll 5 Table.assarrCreate sampleOps = some t ∧
      IsMap 5 t (sampleOps.foldl Op.onMap fun _ => none) :=
  assarr_isMap (by decide +kernel) (by decide)

end WebTester.Assarr
