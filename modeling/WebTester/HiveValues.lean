import Mathlib.Data.List.Forall2
import Mathlib.Data.List.GetD
import Mathlib.Data.List.Induction
import Mathlib.Tactic.Ring
import WebTester.HiveTree
import WebTester.Serialization

/-!
# One variable with a value

A configuration of one variable: a quoted name, and a quoted text or an array of numbers and quoted
texts. The parser is followed over its two tokens, for values that it takes and for values that it
does not take.
-/
namespace WebTester.Hive
open CString Flexval

lemma isSpace_blank : ∀ c ∈ [' '], isSpace c := by
  intro c hc
  rw [List.mem_singleton.1 hc]
  rfl

section Tokens

variable {F : Type} {D : Doubles F} {parseFile : CStr → Globals F → Except Stop (Parsed F)}
  {dir : CStr} {g : Globals F} {k rest : CStr}

/-- The control after a name has been taken at the beginning. -/
def named (k : CStr) : Control := ⟨.value, true, false, 0, k⟩

/-- The nodes when the parser has begun. -/
def rooted (g : Globals F) (v : FlexVal F) : Heap F := g.heap ++ [⟨0, "root".toList, v, [], none⟩]

/-- The parser takes the name. -/
lemma parseBuf_name (hk : Fits k) (rest : CStr) :
    ∃ v line, parseBuf D parseFile dir (quote k ++ rest) g =
      parseLoop D parseFile dir g.heap.length (quote k ++ rest).length (named k) g.heap.length
        (some rest) { g with heap := rooted g v, line := line } := by
  obtain ⟨v, hv⟩ : ∃ v, smartValue D "tree root".toList = some v := ⟨_, rfl⟩
  have hnone : ∀ c ∈ ([] : CStr), isSpace c := by simp
  obtain ⟨lines, hscan⟩ := parserIteration_quote hnone hk.string hk.short rest
  rw [List.nil_append] at hscan
  refine ⟨v, 0 + lines, ?_⟩
  have hstep : Control.start.step (0 + lines) ⟨k, true, false⟩ =
      .ok (named k, ⟨none, .stay⟩) := by
    simp [Control.step, Control.start, named, hk.opening, hk.closing]
  rw [parseBuf, hv]
  dsimp only
  rw [parseLoop]
  simp only [scan, hscan, Bool.false_and, Bool.false_eq_true, if_false, Bool.not_true,
    Bool.and_false, hstep, Action.apply, Option.bind_eq_bind, Option.bind_some, move, rooted]

/-- The parser at a value that is quoted or an array. -/
lemma parseLoop_value {t : Token} {lines : ℕ} {after : Option CStr}
    (hscan : scan (some rest) = .token t lines after) (ht : t.string = true ∨
      t.array = true ∧ t.text.head? ≠ some '#') (root fuel cur : ℕ) :
    parseLoop D parseFile dir root (fuel + 1) (named k) cur (some rest) g =
      match (named k).step (g.line + lines) t with
      | .error error => .ok ⟨false, some root, { g with line := g.line + lines, error := error }⟩
      | .ok (c, action) =>
        match action.apply D g.heap cur with
        | none => .error .fault
        | some (heap, cur) => parseLoop D parseFile dir root fuel c cur after
            { g with heap := heap, line := g.line + lines } := by
  have hvalue : (named k).state = .value := rfl
  have hdirective : (decide (t.text.head? = some '#') && !t.string) = false := by
    rcases ht with hstring | ⟨-, hhead⟩
    · rw [hstring, Bool.not_true, Bool.and_false]
    · rw [decide_eq_false hhead, Bool.false_and]
  rw [parseLoop, hscan]
  cases hstep : (named k).step (g.line + lines) t with
  | error error =>
    simp only [hvalue, hdirective, hstep, ne_eq, not_true_eq_false, decide_false, Bool.and_false,
      Bool.false_eq_true, if_false]
  | ok r =>
    cases happly : r.2.apply D g.heap cur with
    | none =>
      simp only [hvalue, hdirective, hstep, happly, ne_eq, not_true_eq_false, decide_false,
        Bool.and_false, Bool.false_eq_true, if_false]
    | some moved =>
      simp only [hvalue, hdirective, hstep, happly, ne_eq, not_true_eq_false, decide_false,
        Bool.and_false, Bool.false_eq_true, if_false]

end Tokens

/-! ## A quoted value -/

section Quoted

variable {F : Type}

/-- The variable is accepted, and it has the text as its value. -/
def QuotedIsData (D : Doubles F) (k v : CStr)
    (parseFile : CStr → Globals F → Except Stop (Parsed F))
    (dir : CStr) (g : Globals F) : Prop :=
  ∃ p root value, parseBuf D parseFile dir (quote k ++ ' ' :: quote v) g = .ok p ∧ p.success ∧
    p.root = some root ∧ openKey p.globals.heap [root] k = .ok (some value) ∧ value.pchar = v

variable {D : Doubles F} {parseFile : CStr → Globals F → Except Stop (Parsed F)} {dir : CStr}
  {g : Globals F} {k v : CStr}

lemma scan_quoted (hv : nul ∉ v) (hlen : v.length < 1024) :
    ∃ lines, scan (some (' ' :: quote v)) = .token ⟨v, true, false⟩ lines (some []) := by
  obtain ⟨lines, hscan⟩ := parserIteration_quote isSpace_blank hv hlen []
  refine ⟨lines, ?_⟩
  rw [List.append_nil, List.singleton_append] at hscan
  exact hscan

/-- What is done with the value depends on its step. -/
lemma parseBuf_quoted (hk : Fits k) (hv : nul ∉ v) (hlen : v.length < 1024) :
    ∃ value fuel line line', parseBuf D parseFile dir (quote k ++ ' ' :: quote v) g =
      match (named k).step line ⟨v, true, false⟩ with
      | .error error => .ok ⟨false, some g.heap.length, ⟨rooted g value, line, error⟩⟩
      | .ok (c, action) =>
        match action.apply D (rooted g value) g.heap.length with
        | none => .error .fault
        | some (heap, cur) => parseLoop D parseFile dir g.heap.length (fuel + 1) c cur (some [])
            ⟨heap, line', g.error⟩ := by
  obtain ⟨lines, hscan⟩ := scan_quoted hv hlen
  obtain ⟨value, line, hname⟩ := @parseBuf_name F D parseFile dir g k hk (' ' :: quote v)
  have hlength : (quote k ++ ' ' :: quote v).length = (k.flatMap escape).length +
      (v.flatMap escape).length + 3 + 1 + 1 := by
    simp [quote]
    omega
  rw [hlength, parseLoop_value hscan (.inl rfl)] at hname
  exact ⟨value, _, line + lines, line + lines, hname⟩

/-- A text that begins with an opening brace opens a section. -/
lemma not_success_opening (hk : Fits k) (hv : nul ∉ v) (hlen : v.length < 1024)
    (hhead : v.head? = some '{') {p : Parsed F}
    (h : parseBuf D parseFile dir (quote k ++ ' ' :: quote v) g = .ok p) : p.success = false := by
  obtain ⟨value, fuel, line, line', hparse⟩ :=
    @parseBuf_quoted F D parseFile dir g k v hk hv hlen
  have hstep : (named k).step line ⟨v, true, false⟩ =
      .ok (⟨.name, false, false, 1, k⟩, ⟨some (k, ⟨[], true, false⟩), .descend⟩) := by
    simp [Control.step, named, hhead, Control.empty]
  rw [hparse, hstep] at h
  dsimp only at h
  split at h
  · cases h
  · rw [parseLoop] at h
    obtain rfl := Except.ok.inj h
    rfl

/-- A text that begins with a closing brace is an error. -/
lemma not_success_closing (hk : Fits k) (hv : nul ∉ v) (hlen : v.length < 1024)
    (hhead : v.head? = some '}') {p : Parsed F}
    (h : parseBuf D parseFile dir (quote k ++ ' ' :: quote v) g = .ok p) : p.success = false := by
  obtain ⟨value, fuel, line, line', hparse⟩ :=
    @parseBuf_quoted F D parseFile dir g k v hk hv hlen
  have hstep : (named k).step line ⟨v, true, false⟩ =
      .error (atLine "Invalid closing bracket" line) := by
    simp [Control.step, named, hhead]
  rw [hparse, hstep] at h
  obtain rfl := Except.ok.inj h
  rfl

lemma pchar_setString {value : FlexVal F}
    (h : FlexVal.setString D v (FlexVal.create D) = some value) (hlen : v.length ≤ 65534) :
    value.pchar = v := by
  obtain ⟨-, rfl⟩ := setString_eq_some_iff.1 h
  rw [pchar_evalFromString]
  exact Serialization.bufferText_eq hlen

lemma quotedIsData_of_fits (hk : Fits k) (hplain : Plain k) (hv : Fits v) :
    QuotedIsData D k v parseFile dir g := by
  have hlegal : Conf.LegalAll [.leaf k v] := ⟨⟨hk, hplain, hv⟩, trivial⟩
  have hnone : ∀ c ∈ ([] : CStr), isSpace c := by simp
  have htext : Spells (Conf.wordsAll [.leaf k v]) (quote k ++ ' ' :: quote v) := by
    have hvalue : Spells [.text v] (' ' :: quote v ++ []) :=
      Spells.cons isSpace_blank (.nil hnone)
    have hspells := @Spells.cons [] (.text k) _ _ hnone hvalue
    simpa [Conf.wordsAll, Conf.words, Word.spell] using hspells
  have hpath : ∀ n ∈ [k], Plain n := by simpa using hplain
  have hshort : (joinPath [k]).length ≤ 65530 := by
    have := hk.short
    rw [joinPath]
    omega
  obtain ⟨heap, line, hparse, hroot⟩ := parseBuf_spells hlegal htext parseFile dir g
  have hopen := openKey_path hroot hpath (by simp) hshort
  obtain ⟨value, hvalue⟩ := setString_create (D := D) v
  refine ⟨_, g.heap.length, value, hparse, rfl, rfl, ?_, ?_⟩
  · simpa [joinPath, Conf.find, Conf.name, Conf.value, hvalue] using hopen
  · exact pchar_setString hvalue (by have := hv.short; omega)

/-- A quoted text is taken as a value if and only if it begins with no brace. -/
theorem quotedIsData_iff (D : Doubles F) {k v : CStr} (hk : Fits k) (hplain : Plain k)
    (hv : nul ∉ v) (hlen : v.length < 1024)
    (parseFile : CStr → Globals F → Except Stop (Parsed F)) (dir : CStr) (g : Globals F) :
    QuotedIsData D k v parseFile dir g ↔ v.head? ≠ some '{' ∧ v.head? ≠ some '}' := by
  constructor
  · rintro ⟨p, root, value, hparse, hsuccess, -, -, -⟩
    constructor
    · intro hhead
      rw [not_success_opening hk hv hlen hhead hparse] at hsuccess
      cases hsuccess
    · intro hhead
      rw [not_success_closing hk hv hlen hhead hparse] at hsuccess
      cases hsuccess
  · rintro ⟨hopening, hclosing⟩
    exact quotedIsData_of_fits hk hplain ⟨hlen, hv, hopening, hclosing⟩

theorem quotedIsData_iff_special : QuotedIsData noDoubles ['k'] "#[ /* \"\\".toList
    (fun _ _ => .error .fuel) [] ⟨[], 0, []⟩ :=
  (quotedIsData_iff noDoubles (by decide) (by decide) (by decide) (by decide) _ _ _).2 (by decide)

theorem quoted_brace_is_no_data :
    ¬QuotedIsData noDoubles ['k'] ['{', 'a'] (fun _ _ => .error .fuel) [] ⟨[], 0, []⟩ := by
  rintro ⟨p, root, value, hparse, hsuccess, -, -, -⟩
  rw [not_success_opening (by decide) (by decide) (by decide) rfl hparse] at hsuccess
  cases hsuccess

end Quoted

/-! ## Looking up an element -/

section Index

variable {pre ds : CStr} {lastSlash : ℕ}

lemma arrayIndexLoop_open {key : CStr} {n : ℕ} (hopen : key.getD (n + 1) nul = '[')
    (hbefore : key.getD n nul ≠ '\\') (hslash : lastSlash < n) (index mult : ℤ) :
    arrayIndexLoop key lastSlash (n + 1) index mult = some (n + 1, index) := by
  have hnone : ¬(key.getD n nul = '\\' ∨ lastSlash = n) := by
    rw [not_or]
    exact ⟨hbefore, by omega⟩
  rw [arrayIndexLoop]
  simp only [hopen]
  rw [if_neg (by omega), if_pos trivial, if_neg hnone]

/-- A digit of the place that `mult` stands for. -/
lemma arrayIndexLoop_digit {key : CStr} {n : ℕ} {d : Char} (hget : key.getD (n + 1) nul = d)
    (hd : d.isDigit = true) (hslash : lastSlash ≤ n) (index mult : ℤ) :
    arrayIndexLoop key lastSlash (n + 1) index mult =
      arrayIndexLoop key lastSlash n (toInt (index + (d.toNat - '0'.toNat : ℤ) * mult))
        (toInt (mult * 10)) := by
  have hbracket : d ≠ '[' := by
    rintro rfl
    exact absurd hd (by decide)
  rw [arrayIndexLoop]
  simp only [hget]
  rw [if_neg (by omega), if_neg hbracket, if_pos hd]

/-- The digits are summed up from the last one to the opening bracket, in an `int`. -/
lemma arrayIndexLoop_digits (hpre : lastSlash + 1 < pre.length)
    (hlast : pre.getD (pre.length - 1) nul ≠ '\\') (hds : ∀ c ∈ ds, c.isDigit = true) (post : CStr)
    (index mult : ℤ) :
    arrayIndexLoop (pre ++ '[' :: (ds ++ post)) lastSlash (pre.length + ds.length) (toInt index)
      (toInt mult) = some (pre.length, toInt (index + mult * digitsValue ds)) := by
  induction ds using List.reverseRecOn generalizing post index mult with
  | nil =>
    obtain ⟨n, hn⟩ : ∃ n, pre.length = n + 1 := ⟨pre.length - 1, by omega⟩
    have hopen : (pre ++ '[' :: ([] ++ post)).getD (n + 1) nul = '[' := by simp [← hn]
    have hbefore : (pre ++ '[' :: ([] ++ post)).getD n nul ≠ '\\' := by
      rw [hn, Nat.add_sub_cancel] at hlast
      rwa [List.getD_append _ _ _ _ (by omega)]
    rw [List.length_nil, Nat.add_zero, hn, arrayIndexLoop_open hopen hbefore (by omega)]
    simp [digitsValue]
  | append_singleton ds d ih =>
    obtain ⟨hinit, hd⟩ : (∀ c ∈ ds, c.isDigit = true) ∧ d.isDigit = true := by
      simpa [or_imp, forall_and] using hds
    have hrange := Char.isDigit_iff_toNat.1 hd
    have hget : (pre ++ '[' :: (ds ++ [d] ++ post)).getD (pre.length + ds.length + 1) nul = d := by
      rw [List.getD_append_right _ _ _ _ (by omega)]
      simp [Nat.add_assoc]
    have hlen : pre.length + (ds ++ [d]).length = (pre.length + ds.length) + 1 := by
      simp [Nat.add_assoc]
    have hindex : toInt (toInt index + (d.toNat - '0'.toNat : ℤ) * toInt mult) =
        toInt (index + (d.toNat - '0'.toNat : ℤ) * mult) := by
      rw [toInt, toInt, toInt, toInt, Int.bmod_add_bmod, ← Int.add_bmod_bmod, Int.mul_bmod_bmod,
        Int.add_bmod_bmod]
    have hmult : toInt (toInt mult * 10) = toInt (mult * 10) := Int.bmod_mul_bmod
    have hsum : index + (d.toNat - '0'.toNat : ℤ) * mult + mult * 10 * digitsValue ds =
        index + mult * digitsValue (ds ++ [d]) := by
      have hdigit : ((d.toNat - '0'.toNat : ℕ) : ℤ) = d.toNat - '0'.toNat :=
        Int.ofNat_sub hrange.1
      rw [digitsValue_snoc, Int.natCast_add, hdigit, Int.natCast_mul]
      ring
    have hrest := ih hinit (d :: post) (index + (d.toNat - '0'.toNat : ℤ) * mult) (mult * 10)
    rw [hlen, arrayIndexLoop_digit hget hd (by omega), hindex, hmult, ← hsum]
    simpa using hrest

lemma dirname_append {a b : CStr} (hb : '/' ∉ b) : dirname (a ++ '/' :: b) = a := by
  have hdrop : (a ++ '/' :: b).reverse.dropWhile (· ≠ '/') = '/' :: a.reverse := by
    rw [List.reverse_append, List.reverse_cons, List.append_assoc, List.singleton_append,
      List.dropWhile_append_of_pos]
    · rfl
    · intro c hc
      exact decide_eq_true fun heq => hb (heq ▸ List.mem_reverse.1 hc)
  rw [dirname, hdrop, List.tail_cons, List.reverse_reverse]

/-- The key of an element. -/
def elementKey (k : CStr) (i : ℕ) : CStr := k ++ '[' :: (decimal i ++ [']'])

/-- Digits in brackets behind a name. -/
lemma getArrayIndex_digits (hne : ds ≠ []) (hdigits : ∀ c ∈ ds, c.isDigit = true)
    (hdir : (dirname (pre ++ '[' :: (ds ++ [']']))).length = 4) (hpre : 5 < pre.length)
    (hlast : pre.getD (pre.length - 1) nul ≠ '\\') :
    getArrayIndex (pre ++ '[' :: (ds ++ [']'])) = (some (toInt (digitsValue ds)), pre) := by
  have hlen : (pre ++ '[' :: (ds ++ [']'])).length = pre.length + ds.length + 2 := by
    simp
    omega
  have hend : (pre ++ '[' :: (ds ++ [']'])).getD (pre.length + ds.length + 2 - 1) nul = ']' := by
    rw [List.getD_append_right _ _ _ _ (by omega)]
    have hplace : pre.length + ds.length + 2 - 1 - pre.length = ds.length + 1 := by
      omega
    rw [hplace]
    simp
  have hbefore : (pre ++ '[' :: (ds ++ [']'])).getD (pre.length + ds.length + 2 - 2) nul ≠
      '\\' := by
    obtain ⟨init, d, rfl⟩ : ∃ init d, ds = init ++ [d] :=
      ⟨_, _, (List.dropLast_concat_getLast hne).symm⟩
    rw [Nat.add_sub_cancel, List.getD_append_right _ _ _ _ (by omega), Nat.add_sub_cancel_left,
      List.length_append, List.length_singleton]
    have hd : d ≠ '\\' := by
      rintro rfl
      exact absurd (hdigits '\\' (by simp)) (by decide)
    simpa using hd
  have hloop := @arrayIndexLoop_digits _ _ 4 (by omega) hlast hdigits [']'] 0 1
  rw [Int.zero_add, Int.one_mul] at hloop
  have hstart : toInt 0 = 0 ∧ toInt 1 = 1 := ⟨by decide, by decide⟩
  rw [hstart.1, hstart.2] at hloop
  unfold getArrayIndex
  simp only [hdir, hlen]
  rw [if_neg (by rw [not_or, not_not]; exact ⟨hend, hbefore⟩), Nat.add_sub_cancel, hloop]
  simp

/-- A key with a subscript, as `hive_open_key` prints it. -/
lemma getArrayIndex_subscript {k : CStr} (hk : Plain k) (hne : ds ≠ [])
    (hdigits : ∀ c ∈ ds, c.isDigit = true) :
    getArrayIndex ("root/".toList ++ (k ++ '[' :: (ds ++ [']']))) =
      (some (toInt (digitsValue ds)), "root/".toList ++ k) := by
  have hslash : '/' ∉ k ++ '[' :: (ds ++ [']']) := by
    have hnone : '/' ∉ ds := fun h => absurd (hdigits _ h) (by decide)
    simp [hk.slash, hnone]
  have hdir : (dirname ("root/".toList ++ k ++ '[' :: (ds ++ [']']))).length = 4 := by
    have hroot : "root/".toList ++ k ++ '[' :: (ds ++ [']']) =
        "root".toList ++ '/' :: (k ++ '[' :: (ds ++ [']'])) :=
      List.append_assoc _ _ _
    rw [hroot, dirname_append hslash]
    rfl
  have hkpos : 0 < k.length := List.length_pos_iff.2 hk.nonempty
  have hlast : ("root/".toList ++ k).getD (("root/".toList ++ k).length - 1) nul ≠ '\\' := by
    rw [List.getD_append_right _ _ _ _ (by rw [length_rootKey]; simp; omega),
      List.getD_eq_getElem?_getD]
    cases hget : k[("root/".toList ++ k).length - 1 - "root/".toList.length]? with
    | none => decide
    | some c =>
      rintro rfl
      exact hk.backslash (List.mem_of_getElem? hget)
  rw [← List.append_assoc]
  exact getArrayIndex_digits hne hdigits hdir (by rw [length_rootKey]; omega) hlast

lemma getArrayIndex_elementKey {k : CStr} (hk : Plain k) {i : ℕ} (hi : i < 10 ^ 9) :
    getArrayIndex ("root/".toList ++ elementKey k i) = (some (i : ℤ), "root/".toList ++ k) := by
  have hdigits : ∀ c ∈ decimal i, c.isDigit = true := fun _ => isDigit_of_mem_decimal
  rw [elementKey, getArrayIndex_subscript hk (Scanf.decimal_ne_nil i) hdigits,
    Scanf.digitsValue_decimal, toInt_natCast (by omega)]

end Index

section Lookup

variable {F : Type} {heap : Heap F} {root child : ℕ} {k : CStr} {v value : FlexVal F}

/-- A variable below the root. -/
structure Variable (heap : Heap F) (root child : ℕ) (k : CStr) (value : FlexVal F) : Prop where
  rootNode : ∃ v, heap[root]? = some ⟨0, "root".toList, v, [child], none⟩
  childNode : heap[child]? = some ⟨0, k, value, [], some root⟩

lemma Variable.findItem (h : Variable heap root child k value) (hk : Plain k) (fuel : ℕ) :
    findItem heap (fuel + 2) [root] ("root/".toList ++ k) = some child := by
  obtain ⟨v, hroot⟩ := h.rootNode
  have hkey : "root/".toList ++ k = "root".toList ++ '/' :: k := rfl
  have hslash : '/' ∉ "root".toList := by decide
  rw [hkey, findItem_cons hslash]
  simp [hroot, hk.nonempty, findItem_last hk.slash, h.childNode]

lemma Variable.openKey (h : Variable heap root child k value) (hk : Plain k)
    (hshort : k.length < 1024) : openKey heap [root] k = .ok (some value) := by
  have hlength := length_rootKey k
  have hbracket : ']' ∉ "root/".toList ++ k := by simpa using hk.bracket
  have hbackslash : '\\' ∉ "root/".toList ++ k := by simpa using hk.backslash
  have hsize : ¬keySize ≤ k.length + 5 := by
    unfold keySize
    omega
  unfold Hive.openKey
  dsimp only
  rw [hlength, if_neg hsize, getArrayIndex_of_notMem hbracket]
  dsimp only
  rw [stripslashes_of_notMem hbackslash, hlength, h.findItem hk, Option.bind_some, h.childNode]

lemma Variable.openKey_element (h : Variable heap root child k value) (hk : Plain k)
    (hshort : k.length < 1024) {i : ℕ} (hi : i < 10 ^ 9) :
    Hive.openKey heap [root] (elementKey k i) =
      .ok (if i < value.length then value.data[i]? else none) := by
  have hdigits : (decimal i).length ≤ 9 :=
    (Nat.length_toDigits_le_iff (by decide) (by decide)).2 hi
  have hlength := length_rootKey (elementKey k i)
  have hbackslash : '\\' ∉ "root/".toList ++ k := by simpa using hk.backslash
  have hsize : ¬keySize ≤ (elementKey k i).length + 5 := by
    simp only [elementKey, List.length_append, List.length_cons, List.length_nil]
    unfold keySize
    omega
  unfold Hive.openKey
  dsimp only
  rw [hlength, if_neg hsize, getArrayIndex_elementKey hk hi]
  dsimp only
  rw [stripslashes_of_notMem hbackslash, length_rootKey, h.findItem hk, Option.bind_some,
    h.childNode]
  simp

end Lookup

/-! ## An array -/

/-- An element: a number, or a text without quotes, backslashes, brackets and ends of lines. -/
inductive Element
  | int (x : ℤ)
  | text (s : CStr) (plain : ∀ c ∈ s, Serialization.Plain c)

namespace Element

def spell : Element → CStr
  | .int x => printLong x
  | .text s _ => '"' :: (s ++ ['"'])

def token : Element → Token
  | .int x => ⟨printLong x, false, false⟩
  | .text s _ => ⟨s, true, false⟩

/-- The value of an element. -/
def Stands {F : Type} : Element → FlexVal F → Prop
  | .int x, v => v.type = .integer ∧ v.integer = x
  | .text s _, v => Serialization.Fresh s v.type ∧ v.pchar = s

/-- The value that an element is read as. -/
def Wraps {F : Type} : Element → FlexVal F → Prop
  | .int x, v => v.type = .integer ∧ v.integer = flexvalAtol (printLong x)
  | .text s _, v => Serialization.Fresh s v.type ∧ v.pchar = s

/-- A number is a `long`. -/
def Long : Element → Prop
  | .int x => -2 ^ 63 ≤ x ∧ x < 2 ^ 63
  | .text _ _ => True

variable {F : Type} {D : Doubles F} {v : FlexVal F}

lemma Wraps.stands_iff {e : Element} (h : e.Wraps v) : e.Stands v ↔ e.Long := by
  cases e with
  | int x =>
    obtain ⟨htype, hint⟩ := h
    rw [Stands, Long, and_iff_right htype, hint]
    exact Serialization.flexvalAtol_printLong_iff x
  | text s plain => exact iff_of_true h trivial

lemma Wraps.dup {e : Element} (h : e.Wraps v) (hlen : e.spell.length ≤ 65534) :
    e.Wraps v.dup := by
  obtain ⟨integer, real, pchar, type, length, data⟩ := v
  cases e with
  | int x =>
    obtain ⟨rfl, rfl⟩ : type = .integer ∧ integer = flexvalAtol (printLong x) := h
    exact ⟨rfl, rfl⟩
  | text s plain =>
    obtain ⟨htype, rfl⟩ : Serialization.Fresh s type ∧ pchar = s := h
    have hne : type ≠ .array := by
      rw [htype]
      split <;> decide
    have hpchar : pchar.length ≤ 65534 := by
      simp only [spell, List.length_cons, List.length_append] at hlen
      omega
    rw [FlexVal.dup, if_neg hne, Serialization.bufferText_eq hpchar]
    exact ⟨htype, rfl⟩

lemma exists_wraps (D : Doubles F) (fuel : ℕ) {e : Element} (hlen : e.spell.length ≤ 65534) :
    ∃ v, Serialization.elementValue D fuel e.token = some v ∧ e.Wraps v := by
  cases e with
  | int x =>
    have hvalue : Serialization.elementValue D fuel (token (.int x)) =
        FlexVal.setInt D (flexvalAtol (printLong x)) (FlexVal.create D) :=
      if_pos (Serialization.isInteger_printLong x)
    exact ⟨_, hvalue, rfl, rfl⟩
  | text s plain =>
    have hs : s.length ≤ 65534 := by
      simp only [spell, List.length_cons, List.length_append] at hlen
      omega
    obtain ⟨v, hv, hholds⟩ := Serialization.holds_stringValue D plain hs
    exact ⟨v, hv, hholds⟩

lemma balanced_spell (e : Element) : Serialization.Balanced e.spell := by
  cases e with
  | int x => exact Serialization.balanced_printLong x
  | text s plain => exact Serialization.balanced_serial (.text s plain)

lemma unserializeIterator_spell (e : Element) {rest : CStr} (hrest : Serialization.Ends rest) :
    unserializeIterator (e.spell ++ rest) = some (some (e.token, rest)) := by
  cases e with
  | int x =>
    apply Serialization.unserializeIterator_word (Serialization.printLong_ne_nil x) _ hrest
    exact fun c hc => Serialization.isArrayGap_digit (Serialization.mem_printLong hc)
  | text s plain => exact Serialization.unserializeIterator_serial (.text s plain) hrest

end Element

/-- What stands between the brackets of an array. -/
def arrayBody (es : List Element) : CStr := es.flatMap (fun e => ' ' :: e.spell) ++ [' ']

def arrayLiteral (es : List Element) : CStr := '[' :: (arrayBody es ++ [']'])

lemma arrayBody_cons (e : Element) (es : List Element) :
    arrayBody (e :: es) = ' ' :: (e.spell ++ arrayBody es) := by
  simp [arrayBody]

lemma arrayBody_head (es : List Element) : (arrayBody es).head? = some ' ' := by
  cases es with
  | nil => rfl
  | cons e es => rw [arrayBody_cons, List.head?_cons]

lemma balanced_arrayBody (es : List Element) : Serialization.Balanced (arrayBody es) := by
  have hblank : Serialization.Balanced [' '] :=
    Serialization.Balanced.of_forall (by simp [nul])
  induction es with
  | nil => exact hblank
  | cons e es ih =>
    rw [arrayBody_cons]
    exact hblank.append (e.balanced_spell.append ih)

section Array

variable {F : Type} {D : Doubles F}

/-- The elements of the text between the brackets. -/
lemma unserialize_arrayBody {fuel : ℕ} {es : List Element} (hfuel : (arrayBody es).length < fuel)
    (hlen : (arrayBody es).length ≤ 65534) :
    ∃ ws, unserialize D fuel (arrayBody es) = (ws, false) ∧
      List.Forall₂ Element.Wraps es ws := by
  induction es generalizing fuel with
  | nil =>
    obtain ⟨fuel, rfl⟩ : ∃ n, fuel = n + 1 := ⟨fuel - 1, by omega⟩
    have hblank : unserialize D (fuel + 1) (arrayBody []) = unserialize D (fuel + 1) [] :=
      Serialization.unserialize_blank _ []
    exact ⟨[], hblank, .nil⟩
  | cons e es ih =>
    obtain ⟨fuel, rfl⟩ : ∃ n, fuel = n + 1 := ⟨fuel - 1, by omega⟩
    rw [arrayBody_cons, List.length_cons, List.length_append] at hfuel hlen
    obtain ⟨v, hv, hwraps⟩ := e.exists_wraps D fuel (by omega)
    obtain ⟨ws, hws, hall⟩ := @ih fuel (by omega) (by omega)
    have hends : Serialization.Ends (arrayBody es) := .inr (arrayBody_head es)
    refine ⟨v.dup :: ws, ?_, .cons (hwraps.dup (by omega)) hall⟩
    rw [arrayBody_cons, Serialization.unserialize_blank,
      Serialization.unserialize_some (e.unserializeIterator_spell hends) hv, hws]

lemma length_le_arrayBody (es : List Element) : es.length ≤ (arrayBody es).length := by
  induction es with
  | nil => exact Nat.zero_le _
  | cons e es ih =>
    rw [arrayBody_cons, List.length_cons, List.length_cons, List.length_append]
    omega

lemma wraps_dupElems {es : List Element} {ws : List (FlexVal F)}
    (h : List.Forall₂ Element.Wraps es ws) (hlen : (arrayBody es).length ≤ 65534) :
    List.Forall₂ Element.Wraps es (FlexVal.dupElems ws) := by
  induction h with
  | nil => exact .nil
  | cons hw _ ih =>
    rw [arrayBody_cons, List.length_cons, List.length_append] at hlen
    exact .cons (hw.dup (by omega)) (ih (by omega))

lemma wraps_getElem? {es : List Element} {ws : List (FlexVal F)} {i : ℕ} {e : Element}
    {w : FlexVal F} (h : List.Forall₂ Element.Wraps es ws) (he : es[i]? = some e)
    (hw : ws[i]? = some w) : e.Wraps w := by
  obtain ⟨hi, rfl⟩ := List.getElem?_eq_some_iff.1 he
  obtain ⟨hi', rfl⟩ := List.getElem?_eq_some_iff.1 hw
  exact h.get hi hi'

variable {parseFile : CStr → Globals F → Except Stop (Parsed F)} {dir : CStr} {g : Globals F}
  {k : CStr} {es : List Element}

lemma parserIteration_arrayLiteral (es : List Element) :
    ∃ lines, parserIteration (' ' :: arrayLiteral es) =
      if (arrayBody es).length < tokenSize then
        .token ⟨arrayBody es, false, true⟩ lines (some [])
      else .fault := by
  obtain ⟨lines, hit⟩ := parserIteration_space isSpace_blank (arrayBody es ++ [']'])
    (c := '[') (by decide) (by decide)
  obtain ⟨hclosed, htext, hrest⟩ := (balanced_arrayBody es).takeArray_one []
  refine ⟨lines + (takeArray 1 (arrayBody es ++ [']'])).lines, ?_⟩
  rw [List.singleton_append] at hit
  rw [arrayLiteral, hit, takeToken]
  simp only [if_true, hclosed, htext, hrest]

/-- An array of a new value. -/
lemma exists_setArray {vs : List (FlexVal F)} (hcount : vs.length + 1 < 2 ^ 31) :
    ∃ value, FlexVal.setArray D vs (FlexVal.create D) = some value ∧ value.type = .array ∧
      value.length = vs.length ∧ value.data = FlexVal.dupElems vs :=
  ⟨_, if_pos hcount, rfl, rfl, rfl⟩

/-- The value of an array that is not empty. -/
lemma spawnValue_array (hne : es ≠ []) (hlen : (arrayBody es).length < tokenSize) :
    ∃ value, spawnValue D ⟨arrayBody es, false, true⟩ = some value ∧ value.type = .array ∧
      value.length = es.length ∧ List.Forall₂ Element.Wraps es value.data := by
  obtain ⟨ws, hws, hall⟩ := @unserialize_arrayBody F D ((arrayBody es).length + 1) es
    (Nat.lt_succ_self _) (by unfold tokenSize at hlen; omega)
  have hlength : ws.length = es.length := hall.length_eq.symm
  have hcount : es.length + 1 < 2 ^ 31 := by
    have hle := length_le_arrayBody es
    unfold tokenSize at hlen
    omega
  cases ws with
  | nil => exact absurd (List.length_eq_zero_iff.1 hlength.symm) hne
  | cons w ws =>
    have hvalue : spawnValue D ⟨arrayBody es, false, true⟩ =
        FlexVal.setArray D (w :: ws) (FlexVal.create D) := by
      simp only [spawnValue, hws, Bool.false_eq_true, if_false, if_true]
    obtain ⟨value, hsetArray, htype, hlen', hdata⟩ :=
      @exists_setArray F D (w :: ws) (by rw [hlength]; exact hcount)
    refine ⟨value, hvalue.trans hsetArray, htype, hlen'.trans hlength, ?_⟩
    · rw [hdata]
      exact wraps_dupElems hall (by unfold tokenSize at hlen; omega)

/-- The parser at an array behind a name. -/
lemma parseBuf_arrayLiteral (hk : Fits k) (es : List Element) :
    ∃ value fuel line, parseBuf D parseFile dir (quote k ++ ' ' :: arrayLiteral es) g =
      if (arrayBody es).length < tokenSize then
        match addVariable D (rooted g value) g.heap.length k ⟨arrayBody es, false, true⟩ with
        | none => .error .fault
        | some heap => parseLoop D parseFile dir g.heap.length (fuel + 1)
            ⟨.name, false, true, 0, k⟩ g.heap.length (some []) ⟨heap, line, g.error⟩
      else .error .fault := by
  obtain ⟨value, line, hname⟩ := @parseBuf_name F D parseFile dir g k hk (' ' :: arrayLiteral es)
  obtain ⟨lines, hit⟩ := parserIteration_arrayLiteral es
  have hlength : (quote k ++ ' ' :: arrayLiteral es).length = (k.flatMap escape).length +
      (arrayBody es).length + 3 + 1 + 1 := by
    simp [quote, arrayLiteral]
    omega
  refine ⟨value, (k.flatMap escape).length + (arrayBody es).length + 3, line + lines, ?_⟩
  rw [hname, hlength]
  split_ifs with hfits
  · rw [if_pos hfits] at hit
    have hhead : (arrayBody es).head? ≠ some '#' := by
      rw [arrayBody_head]
      decide
    have hstep (n : ℕ) : (named k).step n ⟨arrayBody es, false, true⟩ =
        .ok (⟨.name, false, true, 0, k⟩, ⟨some (k, ⟨arrayBody es, false, true⟩), .stay⟩) := by
      simp [Control.step, named]
    have hscan : scan (some (' ' :: arrayLiteral es)) =
        .token ⟨arrayBody es, false, true⟩ lines (some []) := hit
    rw [parseLoop_value hscan (.inr ⟨rfl, hhead⟩), hstep]
    cases hadd : addVariable D (rooted g value) g.heap.length k ⟨arrayBody es, false, true⟩ with
    | none => simp [Action.apply, hadd]
    | some heap => simp [Action.apply, hadd, move]
  · rw [if_neg hfits] at hit
    rw [parseLoop]
    simp only [scan, hit]

/-- An array that does not fit into the buffer, and the empty array, are a fault. -/
lemma parseBuf_array_fault (hk : Fits k) (h : ¬(es ≠ [] ∧ (arrayBody es).length < tokenSize)) :
    parseBuf D parseFile dir (quote k ++ ' ' :: arrayLiteral es) g = .error .fault := by
  obtain ⟨value, fuel, line, hparse⟩ := @parseBuf_arrayLiteral F D parseFile dir g k hk es
  rw [hparse]
  split_ifs with hfits
  · obtain rfl : es = [] := by
      by_contra hne
      exact h ⟨hne, hfits⟩
    have hadd : addVariable D (rooted g value) g.heap.length k ⟨arrayBody [], false, true⟩ =
        none := by
      have hblank : unserialize D ((arrayBody []).length + 1) (arrayBody []) = ([], false) :=
        Serialization.unserialize_blank _ []
      simp [addVariable, rooted, spawnValue, hblank]
    rw [hadd]
  · rfl

/-- Any other array becomes the value of the variable. -/
lemma parseBuf_array (hk : Fits k) (hne : es ≠ []) (hfits : (arrayBody es).length < tokenSize) :
    ∃ heap value child line,
      parseBuf D parseFile dir (quote k ++ ' ' :: arrayLiteral es) g =
        .ok ⟨true, some g.heap.length, ⟨heap, line, g.error⟩⟩ ∧
      Variable heap g.heap.length child k value ∧ value.type = .array ∧
      value.length = es.length ∧ List.Forall₂ Element.Wraps es value.data := by
  obtain ⟨v, fuel, line, hparse⟩ := @parseBuf_arrayLiteral F D parseFile dir g k hk es
  obtain ⟨value, hvalue, htype, hlength, hall⟩ := spawnValue_array (D := D) hne hfits
  have hroot : (rooted g v)[g.heap.length]? = some ⟨0, "root".toList, v, [], none⟩ := by
    simp [rooted]
  obtain ⟨heap, hadd, hgrown, hnew, -⟩ := addVariable_grown hroot hvalue k
  rw [if_pos hfits, hadd] at hparse
  dsimp only at hparse
  rw [parseLoop] at hparse
  exact ⟨heap, value, (rooted g v).length, _, hparse,
    ⟨⟨v, by simpa using hgrown.cur _ hroot⟩, hnew⟩, htype, hlength, hall⟩

/-- The array is accepted, and every element is found below the name and below its index. -/
def ArrayIsRead (D : Doubles F) (k : CStr) (es : List Element)
    (parseFile : CStr → Globals F → Except Stop (Parsed F)) (dir : CStr) (g : Globals F) : Prop :=
  ∃ p root value, parseBuf D parseFile dir (quote k ++ ' ' :: arrayLiteral es) g = .ok p ∧
    p.success ∧ p.root = some root ∧ openKey p.globals.heap [root] k = .ok (some value) ∧
    value.type = .array ∧ value.length = es.length ∧ value.data.length = es.length ∧
    ∀ i e, es[i]? = some e → ∃ w, value.data[i]? = some w ∧ e.Stands w ∧
      openKey p.globals.heap [root] (elementKey k i) = .ok (some w)

/-- An array of numbers and quoted texts is read as it is written if and only if it is not empty,
fits into the buffer for tokens and has no numbers of more than 64 bits. -/
theorem arrayIsRead_iff (D : Doubles F) {k : CStr} (hk : Fits k) (hplain : Plain k)
    (es : List Element) (parseFile : CStr → Globals F → Except Stop (Parsed F)) (dir : CStr)
    (g : Globals F) :
    ArrayIsRead D k es parseFile dir g ↔
      es ≠ [] ∧ (arrayBody es).length < tokenSize ∧ ∀ e ∈ es, e.Long := by
  by_cases hfits : es ≠ [] ∧ (arrayBody es).length < tokenSize
  · obtain ⟨hne, hlen⟩ := hfits
    obtain ⟨heap, value, child, line, hparse, hvar, htype, hlength, hall⟩ :=
      @parseBuf_array F D parseFile dir g k es hk hne hlen
    have hshort : k.length < 1024 := hk.short
    have hdata : value.data.length = es.length := hall.length_eq.symm
    have hopen := hvar.openKey hplain hshort
    have hcount : es.length < 1024 := (length_le_arrayBody es).trans_lt hlen
    rw [and_iff_right hne, and_iff_right hlen]
    constructor
    · rintro ⟨p, root, value', hp, -, hproot, hopen', -, -, -, helems⟩ e he
      obtain rfl := Except.ok.inj (hparse.symm.trans hp)
      obtain rfl := Option.some.inj hproot
      obtain rfl := Option.some.inj (Except.ok.inj (hopen.symm.trans hopen'))
      obtain ⟨i, hi⟩ := List.mem_iff_getElem?.1 he
      obtain ⟨w, hw, hstands, -⟩ := helems i e hi
      exact (wraps_getElem? hall hi hw).stands_iff.1 hstands
    · intro hlong
      refine ⟨_, g.heap.length, value, hparse, rfl, rfl, hopen, htype, hlength, hdata, ?_⟩
      intro i e hi
      have hlt : i < es.length := (List.getElem?_eq_some_iff.1 hi).1
      have hget : value.data[i]? = some value.data[i] := List.getElem?_eq_getElem (hdata ▸ hlt)
      have hwraps := wraps_getElem? hall hi hget
      refine ⟨_, hget, hwraps.stands_iff.2 (hlong e (List.mem_of_getElem? hi)), ?_⟩
      rw [hvar.openKey_element hplain hshort (by omega), if_pos (hlength ▸ hlt), hget]
  · refine iff_of_false ?_ fun h => hfits ⟨h.1, h.2.1⟩
    rintro ⟨p, root, value, hp, -⟩
    rw [parseBuf_array_fault hk hfits] at hp
    cases hp

end Array

theorem arrayIsRead_iff_three : ArrayIsRead noDoubles ['k']
    [.int (-7), .text [] (by simp), .int 9223372036854775807] (fun _ _ => .error .fuel) []
    ⟨[], 0, []⟩ :=
  (arrayIsRead_iff noDoubles (by decide) (by decide) _ _ _ _).2
    ⟨by simp, by decide, by simp [Element.Long]⟩

theorem empty_array_faults :
    ¬ArrayIsRead noDoubles ['k'] [] (fun _ _ => .error .fuel) [] ⟨[], 0, []⟩ := by
  rintro ⟨p, root, value, hp, -⟩
  rw [parseBuf_array_fault (by decide) (by simp)] at hp
  cases hp

end WebTester.Hive
