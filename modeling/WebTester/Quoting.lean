import WebTester.Setters

/-!
# Texts that come back from their serialized form

`flexval_serialize` puts a text between quotes as it is, and the reader takes a backslash for an
escape and a quote for the end. A value that was a number or an array before it was set to a text
is not written as a text at all.
-/
namespace WebTester.Quoting
open CString Flexval Hive Serialization Setters

variable {F : Type} (D : Doubles F)

/-- What `%lf` prints for a truth value. -/
structure TruthPrinted : Prop where
  zero : D.print 6 (D.ofLong 0) = "0.000000".toList
  one : D.print 6 (D.ofLong 1) = "1.000000".toList

/-- The text of the value is accepted and gives the string `s`. -/
def ReadsBack (w : FlexVal F) (s : CStr) : Prop :=
  ∃ text u, flexvalSerialize D w = some text ∧ flexvalUnserialize D text = some u ∧
    Quoted s u.type ∧ u.pchar = s

/-- A character that stands for itself between quotes. -/
def Literal (c : Char) : Prop := c ≠ '"' ∧ c ≠ '\\' ∧ c ≠ '\n'

instance (c : Char) : Decidable (Literal c) := inferInstanceAs (Decidable (_ ∧ _))

/-! ## What stands between the quotes -/

/-- An escape makes the text shorter than what was read. -/
lemma takeElement_cases {data text rest : CStr} (h : takeElement data = some (text, rest)) :
    (data = text ++ '"' :: rest ∧ ∀ c ∈ text, Literal c) ∨
      text.length + rest.length + 1 < data.length := by
  fun_induction takeElement data generalizing text with
  | case1 => cases h
  | case2 data =>
    obtain ⟨rfl, rfl⟩ : [] = text ∧ data = rest := by simpa using h
    exact .inl ⟨by simp, by simp⟩
  | case3 => cases h
  | case4 => cases h
  | case5 => cases h
  | case6 d data hquote hline hnewline ih =>
    right
    obtain ⟨⟨text', rest'⟩, ht, heq⟩ := Option.map_eq_some_iff.1 h
    obtain ⟨rfl, rfl⟩ : _ :: text' = text ∧ rest' = rest := Prod.mk.inj heq
    have hlength : text'.length + rest'.length + 1 ≤ data.length := by
      obtain ⟨rfl, -⟩ | hlt := ih ht
      · simp only [List.length_append, List.length_cons]
        omega
      · exact hlt.le
    simp only [List.length_cons]
    omega
  | case7 c data hquote hline hslash ih =>
    obtain ⟨⟨text', rest'⟩, ht, heq⟩ := Option.map_eq_some_iff.1 h
    obtain ⟨rfl, rfl⟩ : c :: text' = text ∧ rest' = rest := Prod.mk.inj heq
    obtain ⟨rfl, hall⟩ | hlt := ih ht
    · exact .inl ⟨rfl, List.forall_mem_cons.2 ⟨⟨hquote, hslash, hline⟩, hall⟩⟩
    · right
      simp only [List.length_cons]
      omega

/-! ## Data of one token -/

section reader

variable {D} {s text rest : CStr} {u : FlexVal F}

/-- After the last value there are only blanks. -/
lemma unserializeTokens_blank {data : CStr} (h : ∀ c ∈ data, schar c ≤ 32) (fuel : ℕ)
    (ptr : Option (FlexVal F)) : unserializeTokens D fuel data ptr = ptr := by
  cases fuel with
  | zero => rfl
  | succ fuel =>
    have hskip : data.dropWhile isArrayGap = [] := by
      rw [List.dropWhile_eq_nil_iff]
      intro c hc
      simp [isArrayGap, h c hc]
    have hit : unserializeIterator data = some none := by rw [unserializeIterator, hskip]
    rw [unserializeTokens, hit]

lemma flexvalUnserialize_quote (hne : takeElement text = none) :
    flexvalUnserialize D ('"' :: text) = none := by
  rw [flexvalUnserialize, List.length_cons, unserializeTokens, unserializeIterator_quote, hne]
  rfl

/-- A text between quotes is the value, unless something stands behind it. -/
lemma flexvalUnserialize_text (ht : takeElement text = some (s, rest)) :
    flexvalUnserialize D ('"' :: text) =
      if rest.any fun c => ¬schar c ≤ 32 then none else stringValue D s := by
  rw [flexvalUnserialize, List.length_cons, unserializeTokens, unserializeIterator_quote, ht]
  simp only [Option.map_some, Bool.false_eq_true, if_false, if_true]
  by_cases hany : (rest.any fun c => ¬schar c ≤ 32) = true
  · rw [if_pos hany, if_pos hany]
  · have hblank : ∀ c ∈ rest, schar c ≤ 32 := by simpa using hany
    rw [if_neg hany, if_neg hany, unserializeTokens_blank hblank]

lemma stringValue_eq (hs : s.length ≤ 65534) :
    ∃ u, stringValue D s = some u ∧ Quoted s u.type ∧ u.pchar = s := by
  have hset := (@setString_eq_some_iff F D (FlexVal.create D) _ s).2 ⟨le_rfl, rfl⟩
  rw [bufferText_eq hs] at hset
  refine ⟨_, hset, ?_, pchar_evalFromString⟩
  rw [Quoted, type_evalFromString]
  split_ifs
  · exact .inl rfl
  · exact .inr rfl

/-- A text between quotes comes back if and only if its characters stand for themselves. -/
lemma quote_iff (hs : s.length < 32000) :
    (∃ u, flexvalUnserialize D ('"' :: (s ++ ['"'])) = some u ∧ Quoted s u.type ∧ u.pchar = s) ↔
      ∀ c ∈ s, Literal c := by
  constructor
  · rintro ⟨u, hu, -, hpchar⟩
    cases ht : takeElement (s ++ ['"']) with
    | none =>
      rw [flexvalUnserialize_quote ht] at hu
      cases hu
    | some t =>
      obtain ⟨text, rest⟩ := t
      rw [flexvalUnserialize_text ht] at hu
      split_ifs at hu
      have hcases := takeElement_cases ht
      have hlength : text.length ≤ 65534 := by
        rw [List.length_append, List.length_singleton] at hcases
        obtain ⟨heq, -⟩ | hlt := hcases
        · have := congrArg List.length heq
          simp only [List.length_append, List.length_cons, List.length_nil] at this
          omega
        · omega
      obtain ⟨v, hv, -, hvs⟩ := @stringValue_eq F D text hlength
      obtain rfl := Option.some.inj (hv.symm.trans hu)
      obtain rfl : text = s := hvs.symm.trans hpchar
      obtain ⟨-, hall⟩ | hlt := hcases
      · exact hall
      · rw [List.length_append, List.length_singleton] at hlt
        omega
  · intro hall
    obtain ⟨u, hu, hquoted, hpchar⟩ := @stringValue_eq F D s (by omega)
    refine ⟨u, ?_, hquoted, hpchar⟩
    rw [flexvalUnserialize_text (takeElement_literal hall []), if_neg (by simp), hu]

/-- A number without quotes is read as a number. -/
lemma type_of_number {word : CStr} (hne : word ≠ [])
    (hword : ∀ c ∈ word, isArrayGap c = false ∧ c ≠ '[' ∧ c ≠ '"')
    (hnumber : isInteger word = true ∨ isNumber word = true)
    (hu : flexvalUnserialize D word = some u) : ¬Quoted s u.type := by
  have hit := unserializeIterator_word hne hword (.inl rfl : Ends [])
  rw [List.append_nil] at hit
  have hend := @unserializeTokens_blank F D [] (by simp)
  rw [flexvalUnserialize, unserializeTokens, hit] at hu
  simp only [Bool.false_eq_true, if_false, List.any_nil, hend] at hu
  have htype : u.type = .integer ∨ u.type = .float := by
    unfold smartValue at hu
    split_ifs at hu with hinteger hreal
    · obtain ⟨-, rfl⟩ := setInt_eq_some_iff.1 hu
      exact .inl rfl
    · obtain ⟨-, rfl⟩ := setFloat_eq_some_iff.1 hu
      exact .inr rfl
    · exact absurd hnumber (by simp [hinteger, hreal])
  rintro (h | h)
  · rw [h] at htype
    exact absurd htype (by decide)
  · rw [h] at htype
    exact absurd htype (by decide)

lemma type_of_brackets (hu : flexvalUnserialize D ['[', ']'] = some u) : ¬Quoted s u.type := by
  obtain ⟨hclosed, htext, hrest⟩ := Balanced.nil.takeArray_one []
  rw [List.nil_append] at hclosed htext hrest
  have hempty : unserialize D 1 [] = ([], false) := rfl
  have harray : flexvalUnserialize D ['[', ']'] = some (arrayOf D []) := by
    rw [flexvalUnserialize, List.length_cons, unserializeTokens, unserializeIterator_bracket,
      hclosed, htext, hrest]
    simp only [if_true, List.length_nil, Nat.zero_add, hempty, Bool.false_eq_true, if_false]
    exact unserializeTokens_blank (by simp) _ _
  obtain rfl := Option.some.inj (harray.symm.trans hu)
  rintro (h | h)
  · cases h
  · cases h

end reader

/-! ## Setting a text -/

section set

variable {D} {v w : FlexVal F} {s : CStr}

/-- A truth value is printed as a number. -/
lemma print_truth (hD : TruthPrinted D) {x : ℤ} (hx : x = 0 ∨ x = 1) {u : FlexVal F}
    (hu : flexvalUnserialize D (D.print 6 (D.ofLong x)) = some u) : ¬Quoted s u.type := by
  -- the digit of the truth value, and the decimals
  have hword : ∀ c ∈ ['0', '1', '.'], isArrayGap c = false ∧ c ≠ '[' ∧ c ≠ '"' := by
    simp only [List.forall_mem_cons]
    exact ⟨isArrayGap_digit (.inl rfl), isArrayGap_digit (.inl rfl), by decide, by simp⟩
  have hzero : "0.000000".toList ⊆ ['0', '1', '.'] := by simp
  have hone : "1.000000".toList ⊆ ['0', '1', '.'] := by simp
  rcases hx with rfl | rfl
  · rw [hD.zero] at hu
    exact type_of_number (by simp) (fun c hc => hword c (hzero hc)) (by decide) hu
  · rw [hD.one] at hu
    exact type_of_number (by simp) (fun c hc => hword c (hone hc)) (by decide) hu

/-- A value that is written as a text. -/
lemma readsBack_of_quoted (hw : Quoted s w.type) (hpchar : w.pchar = s) (hs : s.length < 32000) :
    ReadsBack D w s ↔ ∀ c ∈ s, Literal c := by
  have hserialize : flexvalSerialize D w = some ('"' :: (s ++ ['"'])) := by
    obtain ⟨integer, real, pchar, type, length, data⟩ := w
    obtain rfl : pchar = s := hpchar
    obtain rfl | rfl : type = .string ∨ type = .undefined := hw
    · rw [flexvalSerialize]
    · rw [flexvalSerialize]
  rw [← quote_iff (D := D) hs]
  constructor
  · rintro ⟨text, u, htext, hu⟩
    obtain rfl := Option.some.inj (hserialize.symm.trans htext)
    exact ⟨u, hu⟩
  · rintro ⟨u, hu⟩
    exact ⟨_, u, hserialize, hu⟩

/-- A truth value, or an array without data, is not written as a text. -/
lemma not_readsBack_of_type (hD : TruthPrinted D) {x : ℤ} (hx : x = 0 ∨ x = 1) {type : FvType}
    (htype : type = .integer ∨ type = .float ∨ type = .array) {length : ℕ} :
    ¬ReadsBack D ⟨x, D.ofLong x, s, type, length, []⟩ s := by
  rintro ⟨text, u, htext, hu, hquoted, -⟩
  obtain rfl | rfl | rfl := htype
  · rw [flexvalSerialize, Option.some.injEq] at htext
    subst htext
    refine type_of_number (printLong_ne_nil x) ?_ (.inl (isInteger_printLong x)) hu hquoted
    exact fun c hc => isArrayGap_digit (mem_printLong hc)
  · rw [flexvalSerialize, Option.some.injEq] at htext
    subst htext
    exact print_truth hD hx hu hquoted
  · rw [flexvalSerialize] at htext
    cases length with
    | zero =>
      obtain rfl : ['[', ']'] = text := by simpa [serializeElems] using htext
      exact type_of_brackets hu hquoted
    | succ n =>
      rw [serializeElems] at htext
      cases htext

end set

/-- A text comes back if and only if its characters stand for themselves between quotes, and it is
a number or replaces a text. -/
theorem readsBack_iff (hD : TruthPrinted D) {v w : FlexVal F} {s : CStr} (hs : s.length < 32000)
    (hset : FlexVal.setString D s v = some w) :
    ReadsBack D w s ↔ (∀ c ∈ s, c ≠ '"' ∧ c ≠ '\\' ∧ c ≠ '\n') ∧
      (isNumber s ∨ v.type = .undefined ∨ v.type = .string) := by
  have hbuffer := bufferText_eq (show s.length ≤ 65534 by omega)
  obtain ⟨-, rfl⟩ := setString_eq_some_iff.1 hset
  rw [hbuffer]
  by_cases hnumber : isNumber s = true
  · rw [readsBack_of_quoted _ pchar_evalFromString hs]
    · simp only [hnumber, true_or, and_true]
      rfl
    · rw [Quoted, type_evalFromString, if_pos hnumber]
      exact .inl rfl
  · have htype : (FlexVal.evalFromString D { v with pchar := s, data := [] }).type = v.type := by
      rw [type_evalFromString, if_neg hnumber]
    rw [or_iff_right hnumber]
    by_cases hquoted : v.type = .undefined ∨ v.type = .string
    · rw [readsBack_of_quoted _ pchar_evalFromString hs]
      · simp only [hquoted, and_true]
        rfl
      · rw [Quoted, htype]
        exact hquoted.symm
    · refine iff_of_false ?_ fun h => hquoted h.2
      rw [FlexVal.evalFromString, if_neg hnumber]
      apply not_readsBack_of_type hD
      · split
        · exact .inr rfl
        · exact .inl rfl
      · show v.type = _ ∨ v.type = _ ∨ v.type = _
        cases h : v.type with
        | undefined => exact absurd (.inl h) hquoted
        | integer => exact .inl rfl
        | string => exact absurd (.inr h) hquoted
        | float => exact .inr (.inl rfl)
        | array => exact .inr (.inr rfl)

/-- Numbers without decimals. -/
def integers : Doubles ℤ where
  ofLong := id
  toLong := id
  flexvalAtolf := flexvalAtol
  print := fun n x => printLong x ++ '.' :: List.replicate n '0'

theorem readsBack_iff_array_text :
    ∃ w, FlexVal.setString integers ['[', '7', '\t', ']'] (FlexVal.create integers) = some w ∧
      ReadsBack integers w ['[', '7', '\t', ']'] := by
  have hset := (@setString_eq_some_iff ℤ integers (FlexVal.create integers) _
    ['[', '7', '\t', ']']).2 ⟨le_rfl, rfl⟩
  have htruth : TruthPrinted integers := ⟨rfl, rfl⟩
  have hplain : ∀ c ∈ ['[', '7', '\t', ']'], c ≠ '"' ∧ c ≠ '\\' ∧ c ≠ '\n' := by simp
  have hnew : (FlexVal.create integers).type = .undefined := rfl
  have hshort : ['[', '7', '\t', ']'].length < 32000 := by decide
  have hread := (readsBack_iff integers htruth hshort hset).2 ⟨hplain, .inr (.inl hnew)⟩
  exact ⟨_, hset, hread⟩

/-- A quote ends the text that the reader sees, and a backslash is taken for an escape. -/
theorem quote_and_slash_are_not_escaped :
    (∃ w, FlexVal.setString integers ['"'] (FlexVal.create integers) = some w ∧
      ¬ReadsBack integers w ['"']) ∧
    ∃ w, FlexVal.setString integers ['\\'] (FlexVal.create integers) = some w ∧
      ¬ReadsBack integers w ['\\'] := by
  have hlost : ∀ s : CStr, isNumber s = false → s.length < 32000 → (∃ c ∈ s, ¬Literal c) →
      ∃ w, FlexVal.setString integers s (FlexVal.create integers) = some w ∧
        ¬ReadsBack integers w s := by
    intro s hnumber hs hliteral
    have hset := (@setString_eq_some_iff ℤ integers (FlexVal.create integers) _ s).2 ⟨le_rfl, rfl⟩
    rw [bufferText_eq (show s.length ≤ 65534 by omega)] at hset
    refine ⟨_, hset, ?_⟩
    rw [readsBack_of_quoted _ pchar_evalFromString hs]
    · intro hall
      obtain ⟨c, hc, hnot⟩ := hliteral
      exact hnot (hall c hc)
    · rw [Quoted, type_evalFromString, hnumber]
      exact .inr rfl
  constructor
  · exact hlost _ (by decide) (by decide) ⟨'"', by decide, by decide⟩
  · exact hlost _ (by decide) (by decide) ⟨'\\', by decide, by decide⟩

end WebTester.Quoting
