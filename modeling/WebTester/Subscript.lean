import WebTester.HiveSiblings
import WebTester.HiveValues

/-!
# Subscripts

A key with digits in brackets at its end asks for an element of an array. `get_array_index` adds the
digits up in an `int`, from the last one on, whatever their number is, and `hive_open_key` takes a
negative index for none at all.
-/
namespace WebTester.Hive
open CString Flexval

section Subscript

variable {F : Type}

/-! ## Values that know their length -/

/-- The length of a value is that of its elements, and an `int` can hold it. -/
structure Counted (v : FlexVal F) : Prop where
  length : v.length = v.data.length
  short : v.length < 2 ^ 31

/-- Every value of a hive. -/
def Whole (heap : Heap F) : Prop := ∀ node ∈ heap, Counted node.value

/-- The text `name[digits]`. -/
def subscript (name digits : CStr) : CStr := name ++ '[' :: (digits ++ [']'])

/-- The first of some items that is called so. -/
def itemCalled (heap : Heap F) (items : List ℕ) (name : CStr) : Option ℕ :=
  items.find? fun i => (heap[i]?).map Node.name = some name

/-- The value of the variable below the root. -/
def valueOf (heap : Heap F) (root : ℕ) (name : CStr) : Option (FlexVal F) :=
  ((itemCalled heap [root] "root".toList).bind fun r =>
    itemCalled heap (nodesOf heap r) name).bind fun i => (heap[i]?).map Node.value

/-- The key gives the element whose number the digits are, and nothing where there is none. -/
def Selects (heap : Heap F) (root : ℕ) (name digits : CStr) : Prop :=
  openKey heap [root] (subscript name digits) =
    .ok ((valueOf heap root name).bind fun v => v.data[digitsValue digits]?)

/-! ## The hives that are parsed -/

variable {D : Doubles F} {heap heap' : Heap F} {cur : ℕ}

lemma Whole.concat (h : Whole heap) {node : Node F} (hnode : Counted node.value) :
    Whole (heap ++ [node]) := by
  intro n hn
  obtain hold | hnew := List.mem_append.1 hn
  · exact h n hold
  · rw [List.mem_singleton.1 hnew]
    exact hnode

/-- Everything but the value of a node may change. -/
lemma Whole.set (h : Whole heap) {i : ℕ} {node new : Node F} (hnode : heap[i]? = some node)
    (hvalue : new.value = node.value) : Whole (heap.set i new) := by
  intro n hn
  obtain hold | rfl := List.mem_or_eq_of_mem_set hn
  · exact h n hold
  · rw [hvalue]
    exact h node (List.mem_of_getElem? hnode)

lemma counted_setString {s : CStr} {v : FlexVal F}
    (h : FlexVal.setString D s (FlexVal.create D) = some v) : Counted v := by
  obtain ⟨-, rfl⟩ := setString_eq_some_iff.1 h
  unfold FlexVal.evalFromString
  split <;> exact ⟨rfl, Nat.two_pow_pos 31⟩

lemma counted_smartValue {text : CStr} {v : FlexVal F} (h : smartValue D text = some v) :
    Counted v := by
  unfold smartValue at h
  split at h
  · obtain ⟨-, rfl⟩ := setInt_eq_some_iff.1 h
    exact ⟨rfl, Nat.two_pow_pos 31⟩
  · split at h
    · obtain ⟨-, rfl⟩ := setFloat_eq_some_iff.1 h
      exact ⟨rfl, Nat.two_pow_pos 31⟩
    · exact counted_setString h

lemma counted_setArray {vs : List (FlexVal F)} {v w : FlexVal F}
    (h : FlexVal.setArray D vs w = some v) : Counted v := by
  obtain ⟨u, -, h⟩ := Option.bind_eq_some_iff.1 h
  split at h
  · next hcount =>
    obtain rfl := Option.some.inj h
    exact ⟨(FlexVal.length_dupElems vs).symm, Nat.lt_of_succ_lt hcount⟩
  · cases h

lemma counted_spawnValue {t : Token} {v : FlexVal F} (h : spawnValue D t = some v) : Counted v := by
  unfold spawnValue at h
  split at h
  · exact counted_setString h
  · split at h
    · split at h
      · cases h
      · exact counted_setArray h
    · exact counted_smartValue h

lemma Whole.addVariable (h : Whole heap) {name : CStr} {t : Token}
    (hadd : addVariable D heap cur name t = some heap') : Whole heap' := by
  obtain ⟨node, hnode, hadd⟩ := Option.bind_eq_some_iff.1 hadd
  obtain ⟨value, hvalue, hadd⟩ := Option.bind_eq_some_iff.1 hadd
  obtain rfl := Option.some.inj hadd
  have hset : Whole (heap.set cur { node with nodes := node.nodes ++ [heap.length] }) :=
    h.set hnode rfl
  refine hset.concat ?_
  exact counted_spawnValue hvalue

lemma Whole.move (h : Whole heap) {m : Move} {cur' : ℕ}
    (hmove : move heap cur m = some (heap', cur')) : Whole heap' := by
  cases m with
  | stay =>
    obtain ⟨rfl, -⟩ := Prod.mk.inj (Option.some.inj hmove)
    exact h
  | descend =>
    obtain ⟨node, -, hmove⟩ := Option.bind_eq_some_iff.1 hmove
    obtain ⟨child, -, hmove⟩ := Option.bind_eq_some_iff.1 hmove
    obtain ⟨old, hold, hmove⟩ := Option.bind_eq_some_iff.1 hmove
    obtain ⟨rfl, -⟩ := Prod.mk.inj (Option.some.inj hmove)
    exact h.set hold rfl
  | ascend =>
    obtain ⟨rfl, -⟩ := move_ascend_spec hmove
    exact h

lemma Whole.copyChilds (h : Whole heap) (src : Option ℕ) : Whole (copyChilds heap cur src) := by
  unfold Hive.copyChilds
  split
  · next hdst _ => exact h.set hdst rfl
  · exact h

lemma Whole.apply (h : Whole heap) {a : Action} {cur' : ℕ}
    (happly : a.apply D heap cur = some (heap', cur')) : Whole heap' := by
  obtain ⟨adds, m⟩ := a
  cases adds with
  | none => exact h.move happly
  | some v =>
    obtain ⟨heap₁, hadd, hmove⟩ := Option.bind_eq_some_iff.1 happly
    exact (h.addVariable hadd).move hmove

section Parsing

variable {parseFile : CStr → Globals F → Except Stop (Parsed F)} {dir : CStr}

lemma Whole.includeFile {token : CStr} {g g' : Globals F} (h : Whole g.heap)
    (hfiles : ∀ fn g p, Whole g.heap → parseFile fn g = .ok p → Whole p.globals.heap)
    (hinclude : includeFile parseFile dir cur token g = .ok g') : Whole g'.heap := by
  obtain ⟨p, hp, hg'⟩ := bind_eq_ok hinclude
  obtain rfl := Except.ok.inj hg'
  exact (hfiles _ _ _ h hp).copyChilds p.root

lemma Whole.parseLoop {root fuel : ℕ} {c : Control} {data : Option CStr} {g : Globals F}
    {p : Parsed F} (h : Whole g.heap)
    (hfiles : ∀ fn g p, Whole g.heap → parseFile fn g = .ok p → Whole p.globals.heap)
    (hparse : parseLoop D parseFile dir root fuel c cur data g = .ok p) :
    Whole p.globals.heap := by
  induction fuel generalizing c cur data g with
  | zero => cases hparse
  | succ fuel ih =>
    have hturn := turn D parseFile dir root fuel c cur data g
    generalize outline D dir (fuel + 1) c data = o at hturn
    generalize Hive.parseLoop D parseFile dir root (fuel + 1) c cur data g = r at hturn hparse
    cases hturn with
    | fault => cases hparse
    | ends _ _ _ hheap =>
      obtain rfl := Except.ok.inj hparse
      rw [hheap]
      exact h
    | last token hheap =>
      obtain ⟨g₁, hg₁, hp⟩ := bind_eq_ok hparse
      obtain rfl := Except.ok.inj hp
      rw [(finishBuf_globals root c g₁).2]
      exact Whole.includeFile (hheap ▸ h) hfiles hg₁
    | more token data hheap =>
      obtain ⟨g₁, hg₁, hp⟩ := bind_eq_ok hparse
      exact ih (Whole.includeFile (hheap ▸ h) hfiles hg₁) hp
    | token data hstep =>
      split at hparse
      · cases hparse
      · next happly => exact ih (h.apply happly) hparse

end Parsing

/-- In every hive that `hive_parse_file` leaves, the values know their lengths. -/
theorem Whole.parseFile {load : CStr → Option CStr} {fuel : ℕ} {fn : CStr} {g : Globals F}
    {p : Parsed F} (h : Whole g.heap) (hparse : parseFile D load fuel fn g = .ok p) :
    Whole p.globals.heap := by
  induction fuel generalizing fn g p with
  | zero => cases hparse
  | succ fuel ih =>
    rw [Hive.parseFile] at hparse
    split at hparse
    · obtain rfl := Except.ok.inj hparse
      exact h
    · split at hparse
      · cases hparse
      · rw [parseBuf] at hparse
        split at hparse
        · cases hparse
        · next hvalue =>
          exact Whole.parseLoop (h.concat (counted_smartValue hvalue))
            (fun _ _ _ hg hp => ih hg hp) hparse

lemma whole_nil : Whole ([] : Heap F) := fun _ h => absurd h List.not_mem_nil

/-! ## Looking an element up -/

variable {root : ℕ} {name digits : CStr}

lemma length_subscript (name digits : CStr) :
    (subscript name digits).length = name.length + digits.length + 2 := by
  rw [subscript, List.length_append, List.length_cons, List.length_append, List.length_singleton]
  omega

lemma findItem_name (hname : Plain name) (fuel : ℕ) :
    (findItem heap (fuel + 2) [root] ("root/".toList ++ name)).bind (heap[·]?) =
      ((itemCalled heap [root] "root".toList).bind fun r =>
        itemCalled heap (nodesOf heap r) name).bind (heap[·]?) := by
  have hkey : "root/".toList ++ name = "root".toList ++ '/' :: name := rfl
  have hslash : '/' ∉ "root".toList := by decide
  have hbelow : ∀ r, ((heap[r]?).bind fun node => findItem heap (fuel + 1) node.nodes name) =
      itemCalled heap (nodesOf heap r) name := by
    intro r
    unfold nodesOf
    cases heap[r]? with
    | none => rfl
    | some node => exact findItem_last hname.slash
  rw [hkey, findItem_cons hslash]
  simp only [if_neg hname.nonempty, hbelow]
  rfl

/-- What `hive_open_key` makes of the value and of the index. -/
def pick (index : ℤ) (v : FlexVal F) : Option (FlexVal F) :=
  if 0 ≤ index then if index < v.length then v.data[index.toNat]? else none else some v

lemma openKey_subscript (hname : Plain name) (hne : digits ≠ [])
    (hdigits : ∀ d ∈ digits, d.isDigit = true) :
    openKey heap [root] (subscript name digits) =
      if keySize ≤ name.length + digits.length + 7 then .error .fault
      else .ok ((valueOf heap root name).bind (pick (toInt (digitsValue digits)))) := by
  have hlength : ("root/".toList ++ subscript name digits).length =
      name.length + digits.length + 7 := by
    rw [length_rootKey, length_subscript]
  have hbackslash : '\\' ∉ "root/".toList ++ name := by simpa using hname.backslash
  have hindex : getArrayIndex ("root/".toList ++ subscript name digits) =
      (some (toInt (digitsValue digits)), "root/".toList ++ name) :=
    getArrayIndex_subscript hname hne hdigits
  unfold openKey
  dsimp only
  rw [hlength, hindex]
  generalize toInt (digitsValue digits) = index
  split
  · rfl
  · dsimp only
    rw [stripslashes_of_notMem hbackslash, length_rootKey, findItem_name hname, valueOf]
    cases (itemCalled heap [root] "root".toList).bind fun r =>
        itemCalled heap (nodesOf heap r) name with
    | none => rfl
    | some i =>
      rw [Option.bind_some, Option.bind_some]
      cases heap[i]? with
      | none => rfl
      | some node =>
        rw [Option.map_some, Option.bind_some, pick]
        dsimp only
        split
        · rfl
        · rfl

/-- Where the number of an element is too large for an `int`, the lower bits of it must name no
element and no negative index. -/
lemma pick_eq_iff {v : FlexVal F} (hv : Counted v) (n : ℕ) :
    pick (toInt n) v = v.data[n]? ↔
      n < 2 ^ 31 ∨ v.length ≤ n % 2 ^ 32 ∧ n % 2 ^ 32 < 2 ^ 31 := by
  have hlength := hv.length
  have hshort := hv.short
  by_cases hn : n < 2 ^ 31
  · refine iff_of_true ?_ (.inl hn)
    rw [toInt_natCast hn, pick, if_pos (Int.natCast_nonneg n), Int.toNat_natCast]
    split
    · rfl
    · exact (List.getElem?_eq_none (by omega)).symm
  · rw [List.getElem?_eq_none (by omega), or_iff_right hn]
    have hindex := toInt_eq_emod n
    unfold pick
    split
    · next hnonneg =>
      split
      · next hlt =>
        rw [List.getElem?_eq_getElem (by omega)]
        exact iff_of_false (by simp) (by omega)
      · exact iff_of_true rfl (by omega)
    · exact iff_of_false (by simp) (by omega)

lemma Whole.selects_iff_kept (hwhole : Whole heap) (root : ℕ) (hname : Plain name)
    (hne : digits ≠ []) (hdigits : ∀ d ∈ digits, d.isDigit = true) :
    Selects heap root name digits ↔
      name.length + digits.length + 7 < keySize ∧
        (digitsValue digits < 2 ^ 31 ∨ ∀ v, valueOf heap root name = some v →
          v.length ≤ digitsValue digits % 2 ^ 32 ∧ digitsValue digits % 2 ^ 32 < 2 ^ 31) := by
  unfold Selects
  rw [openKey_subscript hname hne hdigits]
  split
  · next hlong => exact iff_of_false (by rintro ⟨⟩) (by omega)
  · next hfits =>
    have hbuffer : name.length + digits.length + 7 < keySize := by omega
    rw [and_iff_right hbuffer]
    cases hvalue : valueOf heap root name with
    | none =>
      rw [Option.bind_none, Option.bind_none]
      exact iff_of_true rfl (.inr fun v hv => by cases hv)
    | some v =>
      have hcounted : Counted v := by
        obtain ⟨i, -, hi⟩ := Option.bind_eq_some_iff.1 hvalue
        obtain ⟨node, hnode, rfl⟩ := Option.map_eq_some_iff.1 hi
        exact hwhole node (List.mem_of_getElem? hnode)
      rw [Except.ok.injEq, Option.bind_some, Option.bind_some, pick_eq_iff hcounted]
      simp

/-- A key gives the element that its digits name, or nothing where there is none, if and only if it
fits into the buffer and its digits, where they are too large for an `int`, name no element in the
bits that are kept, and no negative number. -/
theorem selects_iff {load : CStr → Option CStr} {fuel line : ℕ} {fn error : CStr} {p : Parsed F}
    (hparse : parseFile D load fuel fn ⟨[], line, error⟩ = .ok p) (root : ℕ) (hname : Plain name)
    (hne : digits ≠ []) (hdigits : ∀ d ∈ digits, d.isDigit = true) :
    Selects p.globals.heap root name digits ↔
      name.length + digits.length + 7 < keySize ∧
        (digitsValue digits < 2 ^ 31 ∨ ∀ v, valueOf p.globals.heap root name = some v →
          v.length ≤ digitsValue digits % 2 ^ 32 ∧ digitsValue digits % 2 ^ 32 < 2 ^ 31) :=
  (whole_nil.parseFile hparse).selects_iff_kept root hname hne hdigits

end Subscript

/-- A file with an array of two elements. -/
def pairFile : CStr → Option CStr := fun _ => some "a [10 20]".toList

theorem selects_leading_zeros :
    ∃ p, parseFile noDoubles pairFile 1 [] ⟨[], 0, []⟩ = .ok p ∧
      Selects p.globals.heap 0 ['a'] "00000000000000000001".toList := by
  obtain ⟨p, hp, -⟩ := exists_of_any (P := fun _ => true)
    (r := parseFile noDoubles pairFile 1 [] ⟨[], 0, []⟩) (by decide +kernel)
  refine ⟨p, hp, (selects_iff hp 0 (by decide) (by decide) (List.all_eq_true.1 rfl)).2 ?_⟩
  exact ⟨by decide, .inl (by decide)⟩

/-- Of the two elements the one with the number 4294967297 is found, and the array itself has the
number 2147483648. -/
theorem selects_overflow :
    ∃ p, parseFile noDoubles pairFile 1 [] ⟨[], 0, []⟩ = .ok p ∧
      ¬Selects p.globals.heap 0 ['a'] "4294967297".toList ∧
      ¬Selects p.globals.heap 0 ['a'] "2147483648".toList := by
  obtain ⟨p, hp, hview⟩ := exists_of_any
    (P := fun p => (valueOf p.globals.heap 0 ['a']).any fun v => v.length == 2)
    (r := parseFile noDoubles pairFile 1 [] ⟨[], 0, []⟩) (by decide +kernel)
  obtain ⟨v, hvalue, hlength⟩ := (Option.any_eq_true _ _).1 hview
  rw [beq_iff_eq] at hlength
  have hwhole : Whole p.globals.heap := whole_nil.parseFile hp
  refine ⟨p, hp, ?_, ?_⟩
  · rw [hwhole.selects_iff_kept 0 (by decide) (by decide) (List.all_eq_true.1 rfl)]
    rintro ⟨-, hsmall | hkept⟩
    · exact absurd hsmall (by decide)
    · have hle := (hkept v hvalue).1
      rw [hlength] at hle
      exact absurd hle (by decide)
  · rw [hwhole.selects_iff_kept 0 (by decide) (by decide) (List.all_eq_true.1 rfl)]
    rintro ⟨-, hsmall | hkept⟩
    · exact absurd hsmall (by decide)
    · exact absurd (hkept v hvalue).2 (by decide)

end WebTester.Hive
