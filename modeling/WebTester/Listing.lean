import WebTester.DynaSort
import WebTester.Hive

/-!
# Listings of directories

`scandir` delivers the entries of a directory in some order. Names that are numbers are ordered by
their values and all others by their bytes, so a name that is no number can come between two that
are.
-/
namespace WebTester.Listing
open CString Dynastruc DynaSort Bubble

/-- A name of digits only. -/
def numeric (s : CStr) : Bool := Flexval.isInteger s && s.head? ≠ some '-'

/-- `dyna_sort_listing_comparator`. -/
def dynaSortListingComparator (l r : CStr) : ℤ :=
  if Flexval.isInteger l && Flexval.isInteger r && l.head? ≠ some '-' && r.head? ≠ some '-' then
    if atol l < atol r then -1
    else if atol l > atol r then 1
    else 0
  else strcmp l r

/-- Is the entry listed? Pseudo-dirs are not. -/
def listed (name : CStr) : Bool := name ≠ ['.'] && name ≠ ['.', '.']

/-- The loop of `dir_listing`, from entry `i` on; `malloc` gives an address for each node. -/
def appendEntries (malloc : ℕ → ℕ) : ℕ → List CStr → Dyna CStr → Option (Dyna CStr)
  | _, [], res => some res
  | i, name :: eps, res => do
    let res ← if listed name then (res.dynaAddToBack (some (malloc i)) name 0).map Prod.fst
      else some res
    appendEntries malloc (i + 1) eps res

/-- `dir_listing` of the entries that `scandir` delivers. -/
def dirListing (malloc : ℕ → ℕ) (eps : List CStr) : Option (Dyna CStr) := do
  let res ← appendEntries malloc 0 eps dynaCreate
  dynaSort dynaSortListingComparator res

/-- The entries of a directory with these names, in any order. -/
def Delivers (eps names : List CStr) : Prop := eps.Perm (['.'] :: ['.', '.'] :: names)

/-- The comparator is a total preorder on the names, and every listing of the directory holds the
same sorted permutation of them. -/
structure WellDefined (names : List CStr) : Prop where
  preorder : PreorderOn dynaSortListingComparator {s | s ∈ names}
  listing : ∃ sorted, sorted.Perm names ∧
    (sorted.Pairwise fun s t => dynaSortListingComparator s t ≤ 0) ∧
    ∀ malloc, Function.Injective malloc → ∀ eps, Delivers eps names →
      ∃ t l, dirListing malloc eps = some t ∧ Represents t l ∧ l.map Cell.data = sorted

/-- An `int` counts the names, no two numbers among them have one value, and no other name lies by
its bytes behind one number and before another that is not greater. -/
structure Separate (names : List CStr) : Prop where
  length : names.length < 2 ^ 31
  value : ∀ s ∈ names, ∀ t ∈ names, numeric s → numeric t → atol s = atol t → s = t
  between : ∀ s ∈ names, ∀ t ∈ names, ∀ u ∈ names, numeric s → numeric t → ¬numeric u →
    atol s ≤ atol t → strcmp t u ≤ 0 → ¬strcmp u s ≤ 0

/-! ## The comparator -/

section comparator

variable {s t u : CStr} {names : List CStr}

lemma comparator_of_numeric (hs : numeric s) (ht : numeric t) :
    dynaSortListingComparator s t =
      if atol s < atol t then -1 else if atol s > atol t then 1 else 0 := by
  rw [numeric, Bool.and_eq_true] at hs ht
  simp only [dynaSortListingComparator, hs, ht, Bool.and_self, if_true]

lemma comparator_of_not_numeric (h : ¬(numeric s ∧ numeric t)) :
    dynaSortListingComparator s t = strcmp s t := by
  rw [dynaSortListingComparator, if_neg]
  simp only [numeric, Bool.and_eq_true] at h ⊢
  tauto

lemma comparator_le_iff (hs : numeric s) (ht : numeric t) :
    dynaSortListingComparator s t ≤ 0 ↔ atol s ≤ atol t := by
  rw [comparator_of_numeric hs ht]
  split_ifs <;> omega

lemma comparator_swap (s t : CStr) :
    dynaSortListingComparator t s = -dynaSortListingComparator s t := by
  by_cases h : numeric s ∧ numeric t
  · rw [comparator_of_numeric h.1 h.2, comparator_of_numeric h.2 h.1]
    split_ifs <;> omega
  · rw [comparator_of_not_numeric h, comparator_of_not_numeric (by tauto), strcmp_swap]

/-- A tie of different names is one of two numbers with the same value. -/
lemma eq_of_tie (h : Separate names) (hs : s ∈ names) (ht : t ∈ names)
    (htie : dynaSortListingComparator s t = 0) : s = t := by
  by_cases hnum : numeric s ∧ numeric t
  · rw [comparator_of_numeric hnum.1 hnum.2] at htie
    refine h.value s hs t ht hnum.1 hnum.2 ?_
    split_ifs at htie <;> omega
  · rw [comparator_of_not_numeric hnum] at htie
    exact strcmp_eq_zero_iff.1 htie

lemma eq_of_strcmp_le (hst : strcmp s t ≤ 0) (hts : strcmp t s ≤ 0) : s = t := by
  rw [strcmp_swap] at hts
  exact strcmp_eq_zero_iff.1 (by omega)

lemma strcmp_le_of_not {s t : CStr} (h : ¬strcmp s t ≤ 0) : strcmp t s ≤ 0 := by
  rw [strcmp_swap]
  omega

lemma comparator_trans (h : Separate names) (hs : s ∈ names) (ht : t ∈ names) (hu : u ∈ names)
    (hst : dynaSortListingComparator s t ≤ 0) (htu : dynaSortListingComparator t u ≤ 0) :
    dynaSortListingComparator s u ≤ 0 := by
  by_cases hns : numeric s <;> by_cases hnt : numeric t <;> by_cases hnu : numeric u
  · rw [comparator_le_iff hns hnt] at hst
    rw [comparator_le_iff hnt hnu] at htu
    exact (comparator_le_iff hns hnu).2 (hst.trans htu)
  · rw [comparator_le_iff hns hnt] at hst
    rw [comparator_of_not_numeric (by tauto)] at htu ⊢
    by_contra hsu
    exact h.between s hs t ht u hu hns hnt hnu hst htu (strcmp_le_of_not hsu)
  · rw [comparator_of_not_numeric (by tauto)] at hst htu
    rw [comparator_le_iff hns hnu]
    by_contra hsu
    exact h.between u hu s hs t ht hnu hns hnt (by omega) hst htu
  · rw [comparator_of_not_numeric (by tauto)] at hst htu ⊢
    exact strcmp_trans hst htu
  · rw [comparator_le_iff hnt hnu] at htu
    rw [comparator_of_not_numeric (by tauto)] at hst ⊢
    by_contra hsu
    exact h.between t ht u hu s hs hnt hnu hns htu (strcmp_le_of_not hsu) hst
  all_goals
    rw [comparator_of_not_numeric (by tauto)] at hst htu ⊢
    exact strcmp_trans hst htu

lemma preorderOn (h : Separate names) : PreorderOn dynaSortListingComparator {s | s ∈ names} where
  swap s _ t _ := by rw [comparator_swap, Int.sign_neg]
  trans _ hs _ ht _ hu := comparator_trans h hs ht hu

end comparator

/-! ## The listing -/

section listing

variable {malloc : ℕ → ℕ} {names eps : List CStr}

lemma map_fst_value (l : List (Cell CStr)) : (l.map value).map Prod.fst = l.map Cell.data := by
  rw [List.map_map]
  rfl

/-- Each listed entry gets a node at the end, at an address that was not given before. -/
lemma appendEntries_spec (hmalloc : Function.Injective malloc) (eps : List CStr) (i : ℕ)
    {res : Dyna CStr} {l : List (Cell CStr)} (h : Represents res l)
    (hfresh : ∀ c ∈ l, ∃ j < i, c.addr = malloc j) :
    ∃ t l', appendEntries malloc i eps res = some t ∧ Represents t l' ∧
      l'.map Cell.data = l.map Cell.data ++ eps.filter listed := by
  induction eps generalizing i res l with
  | nil => exact ⟨res, l, rfl, h, by simp⟩
  | cons name eps ih =>
    rw [appendEntries]
    by_cases hname : listed name
    · have hnot : malloc i ∉ l.map Cell.addr := by
        intro hmem
        obtain ⟨c, hc, haddr⟩ := List.mem_map.1 hmem
        obtain ⟨j, hj, hcj⟩ := hfresh c hc
        obtain rfl := hmalloc (haddr.symm.trans hcj)
        omega
      obtain ⟨t, ht, hrep⟩ := h.addToBack hnot name 0
      obtain ⟨u, l', hu, hrep', hdata⟩ := ih (i + 1) hrep (by
        intro c hc
        obtain hc | hc := List.mem_append.1 hc
        · obtain ⟨j, hj, hcj⟩ := hfresh c hc
          exact ⟨j, by omega, hcj⟩
        · obtain rfl := List.mem_singleton.1 hc
          exact ⟨i, by omega, rfl⟩)
      refine ⟨u, l', ?_, hrep', ?_⟩
      · rw [if_pos hname, ht, Option.map_some, Option.bind_eq_bind, Option.bind_some]
        exact hu
      · rw [hdata, List.filter_cons_of_pos hname]
        simp
    · obtain ⟨u, l', hu, hrep', hdata⟩ := ih (i + 1) h (by
        intro c hc
        obtain ⟨j, hj, hcj⟩ := hfresh c hc
        exact ⟨j, by omega, hcj⟩)
      refine ⟨u, l', ?_, hrep', ?_⟩
      · rw [if_neg hname, Option.bind_eq_bind, Option.bind_some]
        exact hu
      · rw [hdata, List.filter_cons_of_neg hname]

/-- The names of a listing are the listed entries, sorted. -/
lemma dirListing_spec (hmalloc : Function.Injective malloc) (eps : List CStr) :
    ∃ t l, dirListing malloc eps = some t ∧ Represents t l ∧ l.map Cell.data =
      Bubble.sort dynaSortListingComparator (sortLength (eps.filter listed).length)
        (eps.filter listed) := by
  obtain ⟨s, l, hs, hrep, hdata⟩ := appendEntries_spec hmalloc eps 0 Represents.create (by simp)
  obtain ⟨t, l', ht, -, hrep', -, hvalue⟩ := dynaSort_spec dynaSortListingComparator hrep
  refine ⟨t, l', ?_, hrep', ?_⟩
  · rw [dirListing, hs, Option.bind_eq_bind, Option.bind_some]
    exact ht
  · rw [List.map_nil, List.nil_append] at hdata
    rw [← hdata, List.length_map, ← map_fst_value l, ← map_fst_value l', hvalue]
    exact map_sort Prod.fst _ _

/-- The names of a directory are all listed. -/
lemma filter_listed (hdots : ['.'] ∉ names ∧ ['.', '.'] ∉ names) :
    names.filter listed = names := by
  refine List.filter_eq_self.2 fun name hname => ?_
  have hdot : name ≠ ['.'] := fun heq => hdots.1 (heq ▸ hname)
  have hdotdot : name ≠ ['.', '.'] := fun heq => hdots.2 (heq ▸ hname)
  simp [listed, hdot, hdotdot]

lemma filter_delivered (hdots : ['.'] ∉ names ∧ ['.', '.'] ∉ names) (h : Delivers eps names) :
    (eps.filter listed).Perm names := by
  have hfilter := List.Perm.filter listed h
  rwa [List.filter_cons_of_neg (by decide), List.filter_cons_of_neg (by decide),
    filter_listed hdots] at hfilter

lemma sortLength_lt {n : ℕ} (hn : 2 ^ 31 ≤ n) : sortLength n < n := by
  rw [sortLength, toInt_eq_emod]
  split <;> omega

/-- Every order of the names is delivered by some directory stream. -/
lemma filter_listed_of_perm (hdots : ['.'] ∉ names ∧ ['.', '.'] ∉ names) {order : List CStr}
    (h : order.Perm names) : Delivers (['.'] :: ['.', '.'] :: order) names ∧
      (['.'] :: ['.', '.'] :: order).filter listed = order := by
  refine ⟨(h.cons _).cons _, ?_⟩
  rw [List.filter_cons_of_neg (by decide), List.filter_cons_of_neg (by decide)]
  rw [← h.mem_iff, ← h.mem_iff] at hdots
  exact filter_listed hdots

/-- The one listing of a directory is the sorted list of its names in any order. -/
lemma WellDefined.sort_eq (h : WellDefined names)
    (hdots : ['.'] ∉ names ∧ ['.', '.'] ∉ names) : ∃ sorted, ∀ order : List CStr,
    order.Perm names →
      Bubble.sort dynaSortListingComparator (sortLength names.length) order = sorted := by
  obtain ⟨sorted, -, -, hall⟩ := h.listing
  refine ⟨sorted, fun order horder => ?_⟩
  obtain ⟨hdelivers, hfilter⟩ := filter_listed_of_perm hdots horder
  obtain ⟨t, l, ht, hrep, hdata⟩ := hall id Function.injective_id _ hdelivers
  obtain ⟨u, l', hu, hrep', hdata'⟩ := dirListing_spec Function.injective_id
    (['.'] :: ['.', '.'] :: order)
  obtain rfl : t = u := Option.some.inj (ht.symm.trans hu)
  rw [hfilter, horder.length_eq] at hdata'
  rw [← hdata', ← hdata, ← map_fst_value, ← map_fst_value, map_value_eq hrep hrep']

lemma WellDefined.length_lt (h : WellDefined names) (hnodup : names.Nodup)
    (hdots : ['.'] ∉ names ∧ ['.', '.'] ∉ names) : names.length < 2 ^ 31 := by
  by_contra hlong
  have hlt := sortLength_lt (Nat.le_of_not_lt hlong)
  obtain ⟨sorted, hsorted⟩ := h.sort_eq hdots
  -- the last entry of a long directory stays the last one
  have hlast : ∀ s ∈ names, sorted.getLast? = some s := by
    intro s hs
    have hperm : (names.erase s ++ [s]).Perm names :=
      List.perm_append_comm.trans (List.perm_cons_erase hs).symm
    rw [← hsorted _ hperm, sort_append, List.getLast?_concat]
    rw [List.length_erase_of_mem hs]
    omega
  have htwo : 2 ≤ names.length := by omega
  clear hlong hlt hsorted
  match names, htwo with
  | s :: t :: names, _ =>
    have hst := (hlast s (by simp)).symm.trans (hlast t (by simp))
    rw [List.nodup_cons] at hnodup
    exact hnodup.1 (by simp [Option.some.inj hst])

lemma WellDefined.value_eq (h : WellDefined names)
    (hdots : ['.'] ∉ names ∧ ['.', '.'] ∉ names) {s t : CStr} (hs : s ∈ names) (ht : t ∈ names)
    (htie : dynaSortListingComparator s t = 0) : s = t := by
  by_contra hne
  obtain ⟨sorted, hsorted⟩ := h.sort_eq hdots
  have herase : t ∈ names.erase s := (List.mem_erase_of_ne (Ne.symm hne)).2 ht
  have hperm : names.Perm (s :: t :: (names.erase s).erase t) :=
    (List.perm_cons_erase hs).trans ((List.perm_cons_erase herase).cons s)
  have hperm' := hperm.trans (List.Perm.swap t s _)
  -- names that tie keep the order in which they were delivered
  have hfilter : ∀ order : List CStr, order.Perm names →
      sorted.filter (fun u => dynaSortListingComparator u s = 0) =
        order.filter fun u => dynaSortListingComparator u s = 0 := by
    intro order horder
    rw [← hsorted order horder]
    refine filter_sort _ _ order fun a ha b hb has hbs => ?_
    exact h.preorder.not_gt_of_ties (horder.mem_iff.1 ha) (horder.mem_iff.1 hb) hs
      (of_decide_eq_true has) (of_decide_eq_true hbs)
  have hsym : dynaSortListingComparator t s = 0 := by rw [comparator_swap, htie, Int.neg_zero]
  have hself : dynaSortListingComparator s s = 0 := by
    have hswap := comparator_swap s s
    omega
  have heq := (hfilter _ hperm.symm).symm.trans (hfilter _ hperm'.symm)
  have hhead := congrArg List.head? heq
  simp only [List.filter_cons, hself, hsym, decide_true, if_true, List.head?_cons] at hhead
  exact hne (Option.some.inj hhead)

lemma WellDefined.separate (h : WellDefined names) (hnodup : names.Nodup)
    (hdots : ['.'] ∉ names ∧ ['.', '.'] ∉ names) : Separate names where
  length := h.length_lt hnodup hdots
  value s hs t ht hns hnt heq := by
    refine h.value_eq hdots hs ht ?_
    rw [comparator_of_numeric hns hnt]
    simp [heq]
  between s hs t ht u hu hns hnt hnu hle htu hus := by
    have hsu := h.preorder.trans s hs t ht u hu ((comparator_le_iff hns hnt).2 hle)
      (by rwa [comparator_of_not_numeric (by tauto)])
    rw [comparator_of_not_numeric (by tauto)] at hsu
    exact hnu (eq_of_strcmp_le hsu hus ▸ hns)

lemma Separate.wellDefined (h : Separate names)
    (hdots : ['.'] ∉ names ∧ ['.', '.'] ∉ names) : WellDefined names where
  preorder := preorderOn h
  listing := by
    have hsorted : ∀ order : List CStr, order.Perm names →
        (Bubble.sort dynaSortListingComparator (sortLength order.length) order).Pairwise
          fun s t => dynaSortListingComparator s t ≤ 0 := by
      intro order horder
      rw [sortLength_eq (horder.length_eq ▸ h.length)]
      exact sorted_sort ((preorderOn h).mono fun s hs => horder.mem_iff.1 hs)
    refine ⟨_, sort_perm _ names, hsorted names (.refl names), fun malloc hmalloc eps heps => ?_⟩
    obtain ⟨t, l, ht, hrep, hdata⟩ := dirListing_spec hmalloc eps
    have hperm := filter_delivered hdots heps
    refine ⟨t, l, ht, hrep, hdata.trans ?_⟩
    refine eq_of_perm ((sort_perm _ _).trans (hperm.trans (sort_perm _ _).symm)) (hsorted _ hperm)
      (hsorted names (.refl names)) fun s hs t ht hst hts => ?_
    have hmem : ∀ n, ∀ s ∈ Bubble.sort dynaSortListingComparator n (eps.filter listed), s ∈ names :=
      fun n s hs => hperm.mem_iff.1 ((sort_perm n _).mem_iff.1 hs)
    refine eq_of_tie h (hmem _ s hs) (hmem _ t ht) ?_
    rw [comparator_swap] at hts
    omega

/-- The listings of a directory are well defined exactly when its numbers are apart from each other
and from the other names. -/
theorem wellDefined_iff (names : List CStr) (hnodup : names.Nodup)
    (hdots : ['.'] ∉ names ∧ ['.', '.'] ∉ names) : WellDefined names ↔ Separate names :=
  ⟨fun h => h.separate hnodup hdots, fun h => h.wellDefined hdots⟩

/-- Numbers of different length, and a name behind all of them. -/
def sampleNames : List CStr := [['1', '0'], ['9'], ['b']]

theorem wellDefined_iff_sampleNames : WellDefined sampleNames := by
  refine (wellDefined_iff sampleNames (by decide) (by decide)).2 ⟨by decide, ?_, ?_⟩
  · decide
  · decide

/-- The name `1a` lies behind `10` and before `9`, and the numbers are in the other order. -/
theorem listing_order_is_cyclic : ¬WellDefined [['9'], ['1', '0'], ['1', 'a']] := by
  intro h
  have hle := h.preorder.trans ['9'] (by simp) ['1', '0'] (by simp) ['1', 'a'] (by simp)
    (by decide) (by decide)
  exact absurd hle (by decide)

end listing

end WebTester.Listing
