import Mathlib.Data.List.TakeDrop
import WebTester.Serialization

/-!
# What a setter leaves of the value before it

The setters of a flexible value free its elements, keep the length of its array, and leave the type
to the text when a text is set. The functions below read the elements of an array one by one; where
there are fewer than the length says they have no result. Freeing an element of an array reads it
after it was released; here it is taken to be as it was.
-/
namespace WebTester.Setters
open CString Flexval Hive

variable {F : Type} (D : Doubles F)

/-! ## Functions that read the elements -/

mutual

/-- `flexval_serialize`. -/
def flexvalSerialize : FlexVal F → Option CStr
  | ⟨_, _, pchar, .undefined, _, _⟩ => some ('"' :: (pchar ++ ['"']))
  | ⟨_, _, pchar, .string, _, _⟩ => some ('"' :: (pchar ++ ['"']))
  | ⟨integer, _, _, .integer, _, _⟩ => some (printLong integer)
  | ⟨_, real, _, .float, _, _⟩ => some (D.print 6 real)
  | ⟨_, _, _, .array, length, data⟩ =>
    (serializeElems length data).map fun text => '[' :: (text ++ [']'])

def serializeElems : ℕ → List (FlexVal F) → Option CStr
  | 0, _ => some []
  | _ + 1, [] => none
  | n + 1, v :: vs => do
    let text ← flexvalSerialize v
    let texts ← serializeElems n vs
    return text ++ ((if n = 0 then [] else [' ']) ++ texts)

end

mutual

/-- `flexval_dup`. -/
def flexvalDup : FlexVal F → Option (FlexVal F)
  | ⟨integer, real, pchar, type, length, data⟩ =>
    if type = .array then
      if length + 1 < 2 ^ 31 then
        (dupElems length data).map fun data =>
          ⟨integer, real, FlexVal.bufferText pchar, type, length, data⟩
      else none
    else some ⟨integer, real, FlexVal.bufferText pchar, type, 0, []⟩

def dupElems : ℕ → List (FlexVal F) → Option (List (FlexVal F))
  | 0, _ => some []
  | _ + 1, [] => none
  | n + 1, v :: vs => do
    let w ← flexvalDup v
    let ws ← dupElems n vs
    return w :: ws

end

/-- `flexval_set_array`. -/
def flexvalSetArray (vs : List (FlexVal F)) (v : FlexVal F) : Option (FlexVal F) := do
  let v ← FlexVal.setString D [] v
  if vs.length + 1 < 2 ^ 31 then
    let data ← dupElems vs.length vs
    return { v with
      pchar := "Array".toList, type := .array, length := vs.length, data := data }
  else none

/-- `flexval_array_append`. -/
def flexvalArrayAppend (element v : FlexVal F) : Option (FlexVal F) := do
  let ptr ← flexvalDup element
  if v.length + 2 < 2 ^ 31 ∧ v.length ≤ v.data.length then
    some ⟨0, D.ofLong 0, "Array".toList, .array, v.length + 1, v.data.take v.length ++ [ptr]⟩
  else none

/-- A text that `flexval_cmp` serializes into its buffer. -/
def fitBuffer (text : CStr) : Option CStr := if text.length < 65536 then some text else none

/-- `flexval_cmp`. -/
def flexvalCmp (a b : FlexVal F) : Option ℤ :=
  if a.type ≠ b.type then some (-2)
  else if a.type = .undefined then some 0
  else if a.type ≠ .array then some (strcmp a.pchar b.pchar)
  else do
    let s ← flexvalSerialize D a >>= fitBuffer
    let t ← flexvalSerialize D b >>= fitBuffer
    return strcmp s t

/-! ## Histories -/

inductive Setter (F : Type)
  | string (s : CStr)
  | int (x : ℤ)
  | float (x : F)
  | array (vs : List (FlexVal F))

namespace Setter

def exec : Setter F → FlexVal F → Option (FlexVal F)
  | string s => FlexVal.setString D s
  | int x => FlexVal.setInt D x
  | float x => FlexVal.setFloat D x
  | array vs => flexvalSetArray D vs

/-- What the value has to be after a text or an integer is set. -/
def Says (w : FlexVal F) : Setter F → Prop
  | string s =>
    w.type = .string ∧ flexvalSerialize D w = some ('"' :: (s ++ ['"'])) ∧ w.length = 0
  | int x => flexvalSerialize D w = some (printLong x)
  | float _ => True
  | array _ => True

end Setter

/-- What may happen to a value. -/
inductive Op (F : Type)
  | set (setter : Setter F)
  | append (element : FlexVal F)

def Op.exec : Op F → FlexVal F → Option (FlexVal F)
  | .set setter => setter.exec D
  | .append element => flexvalArrayAppend D element

/-- A new value after these operations. -/
def run (ops : List (Op F)) : Option (FlexVal F) :=
  ops.foldlM (fun v op => op.exec D v) (FlexVal.create D)

/-- After either history the last setter determines the value: it is what was set, and the two
values compare equal. -/
def Determines (setter : Setter F) (before before' : List (Op F)) : Prop :=
  ∃ w w', run D (before ++ [.set setter]) = some w ∧ run D (before' ++ [.set setter]) = some w' ∧
    setter.Says D w ∧ setter.Says D w' ∧ flexvalCmp D w w' = some 0

/-- The values of which the setter leaves nothing. -/
def Setter.Settles (v : FlexVal F) : Setter F → Prop
  | string s => s.length ≤ 65534 ∧ v.length = 0 ∧ (isNumber s ∨ v.type = .string)
  | int _ => v.length ≤ v.data.length
  | float _ => v.length ≤ v.data.length
  | array vs => v.length ≤ v.data.length ∧ vs.length + 1 < 2 ^ 31 ∧
      ∃ data text, dupElems vs.length vs = some data ∧
        serializeElems D vs.length data = some text ∧ text.length + 2 < 65536

/-! ## What a setter does -/

section setters

variable {D} {v v' w w' : FlexVal F}

/-- Only the elements that are freed are taken from the old value. -/
lemma flexvalSetArray_eq_some_iff {vs : List (FlexVal F)} :
    flexvalSetArray D vs v = some w ↔ v.length ≤ v.data.length ∧ vs.length + 1 < 2 ^ 31 ∧
      ∃ data, dupElems vs.length vs = some data ∧
        (⟨0, D.flexvalAtolf [], "Array".toList, .array, vs.length, data⟩ : FlexVal F) = w := by
  have hempty : FlexVal.evalFromString D { v with pchar := FlexVal.bufferText [], data := [] } =
      ⟨0, D.flexvalAtolf [], [], .string, v.length, []⟩ := by
    have hnumber : isNumber [] = true := rfl
    rw [FlexVal.evalFromString, FlexVal.bufferText, List.take_nil, if_pos hnumber,
      flexvalAtol_nil]
  simp [flexvalSetArray, Option.bind_eq_some_iff, setString_eq_some_iff, hempty, and_assoc]

lemma flexvalSerialize_string (h : w.type = .string) :
    flexvalSerialize D w = some ('"' :: (w.pchar ++ ['"'])) := by
  obtain ⟨integer, real, pchar, type, length, data⟩ := w
  obtain rfl : type = .string := h
  simp only [flexvalSerialize]

lemma run_concat {before : List (Op F)} (h : run D before = some v) (setter : Setter F) :
    run D (before ++ [.set setter]) = setter.exec D v := by
  have hrun : run D (before ++ [.set setter]) = (run D before).bind fun v => setter.exec D v := by
    simp [run, List.foldlM_append, Op.exec]
  rw [hrun, h, Option.bind_some]

lemma says_string_iff {s : CStr} :
    (∃ w, FlexVal.setString D s v = some w ∧ (Setter.string s).Says D w) ↔
      (Setter.string s).Settles D v := by
  have hbuffer : FlexVal.bufferText s = s ↔ s.length ≤ 65534 := List.take_eq_self_iff s
  constructor
  · rintro ⟨w, hw, htype, htext, hlength⟩
    obtain ⟨-, rfl⟩ := setString_eq_some_iff.1 hw
    rw [flexvalSerialize_string htype, pchar_evalFromString] at htext
    have hs : FlexVal.bufferText s = s := by simpa using htext
    rw [type_evalFromString, hs] at htype
    rw [length_evalFromString] at hlength
    refine ⟨hbuffer.1 hs, hlength, ?_⟩
    by_cases hnumber : isNumber s = true
    · exact .inl hnumber
    · rw [if_neg hnumber] at htype
      exact .inr htype
  · rintro ⟨hs, hlength, htype⟩
    rw [← hbuffer] at hs
    have hset := (@setString_eq_some_iff F D v _ s).2 ⟨by omega, rfl⟩
    refine ⟨_, hset, ?_⟩
    have hstring : (FlexVal.evalFromString D { v with
        pchar := FlexVal.bufferText s, data := [] }).type = .string := by
      rw [type_evalFromString, hs]
      by_cases hnumber : isNumber s = true
      · exact if_pos hnumber
      · rw [if_neg hnumber]
        exact htype.resolve_left hnumber
    refine ⟨hstring, ?_, ?_⟩
    · rw [flexvalSerialize_string hstring, pchar_evalFromString, hs]
    · rw [length_evalFromString]
      exact hlength

/-- Values of one type that is neither undefined nor an array are compared by their texts. -/
lemma flexvalCmp_of_pchar (htype : w.type = w'.type) (hdefined : w.type ≠ .undefined)
    (harray : w.type ≠ .array) (hpchar : w.pchar = w'.pchar) : flexvalCmp D w w' = some 0 := by
  rw [flexvalCmp, if_neg (not_not.2 htype), if_neg hdefined, if_pos harray, hpchar,
    strcmp_eq_zero_iff.2 rfl]

/-- An array is compared with itself by its text, if there is one and the buffers hold it. -/
lemma flexvalCmp_array_iff {integer : ℤ} {real : F} {pchar : CStr} {length : ℕ}
    {data : List (FlexVal F)} {a : FlexVal F}
    (ha : a = ⟨integer, real, pchar, .array, length, data⟩) :
    flexvalCmp D a a = some 0 ↔
      ∃ text, serializeElems D length data = some text ∧ text.length + 2 < 65536 := by
  have htype : a.type = .array := by rw [ha]
  have hserialize : flexvalSerialize D a =
      (serializeElems D length data).map fun text => '[' :: (text ++ [']']) := by
    rw [ha, flexvalSerialize]
  rw [flexvalCmp, if_neg (not_not.2 rfl), htype, if_neg (by decide), if_neg (not_not.2 rfl),
    hserialize]
  cases serializeElems D length data with
  | none => simp
  | some text =>
    have hlength : ('[' :: (text ++ [']'])).length = text.length + 2 := by simp
    by_cases hfit : text.length + 2 < 65536
    · simp [fitBuffer, hlength, hfit, strcmp_eq_zero_iff]
    · simp [fitBuffer, hlength, hfit]

/-- The setter on two values, and what it leaves of each of them. -/
lemma setter_iff (setter : Setter F) (v v' : FlexVal F) :
    (∃ w w', setter.exec D v = some w ∧ setter.exec D v' = some w' ∧ setter.Says D w ∧
      setter.Says D w' ∧ flexvalCmp D w w' = some 0) ↔
      setter.Settles D v ∧ setter.Settles D v' := by
  cases setter with
  | string s =>
    constructor
    · rintro ⟨w, w', hw, hw', hsays, hsays', -⟩
      exact ⟨says_string_iff.1 ⟨w, hw, hsays⟩, says_string_iff.1 ⟨w', hw', hsays'⟩⟩
    · rintro ⟨hv, hv'⟩
      obtain ⟨w, hw, hsays⟩ := says_string_iff.2 hv
      obtain ⟨w', hw', hsays'⟩ := says_string_iff.2 hv'
      refine ⟨w, w', hw, hw', hsays, hsays', ?_⟩
      have htype : w.type = .string := hsays.1
      have htype' : w'.type = .string := hsays'.1
      obtain ⟨-, rfl⟩ := setString_eq_some_iff.1 hw
      obtain ⟨-, rfl⟩ := setString_eq_some_iff.1 hw'
      apply flexvalCmp_of_pchar
      · rw [htype, htype']
      · simp [htype]
      · simp [htype]
      · rw [pchar_evalFromString, pchar_evalFromString]
  | int x =>
    constructor
    · rintro ⟨w, w', hw, hw', -⟩
      exact ⟨(setInt_eq_some_iff.1 hw).1, (setInt_eq_some_iff.1 hw').1⟩
    · rintro ⟨hv, hv'⟩
      refine ⟨_, _, setInt_eq_some_iff.2 ⟨hv, rfl⟩, setInt_eq_some_iff.2 ⟨hv', rfl⟩, ?_, ?_, ?_⟩
      · show flexvalSerialize D _ = _
        rw [flexvalSerialize]
      · show flexvalSerialize D _ = _
        rw [flexvalSerialize]
      · exact flexvalCmp_of_pchar rfl (by simp) (by simp) rfl
  | float x =>
    constructor
    · rintro ⟨w, w', hw, hw', -⟩
      exact ⟨(setFloat_eq_some_iff.1 hw).1, (setFloat_eq_some_iff.1 hw').1⟩
    · rintro ⟨hv, hv'⟩
      refine ⟨_, _, setFloat_eq_some_iff.2 ⟨hv, rfl⟩, setFloat_eq_some_iff.2 ⟨hv', rfl⟩, trivial,
        trivial, ?_⟩
      exact flexvalCmp_of_pchar rfl (by simp) (by simp) rfl
  | array vs =>
    constructor
    · rintro ⟨w, w', hw, hw', -, -, hcmp⟩
      obtain ⟨hv, hcount, data, hdata, hnew⟩ := flexvalSetArray_eq_some_iff.1 hw
      obtain ⟨hv', -, data', hdata', hnew'⟩ := flexvalSetArray_eq_some_iff.1 hw'
      obtain rfl : data = data' := Option.some.inj (hdata.symm.trans hdata')
      rw [← hnew', ← hnew] at hcmp
      obtain ⟨text, htext⟩ := (flexvalCmp_array_iff rfl).1 hcmp
      exact ⟨⟨hv, hcount, data, text, hdata, htext⟩, hv', hcount, data, text, hdata, htext⟩
    · rintro ⟨⟨hv, hcount, data, text, hdata, htext⟩, hv', -⟩
      refine ⟨_, _, flexvalSetArray_eq_some_iff.2 ⟨hv, hcount, data, hdata, rfl⟩,
        flexvalSetArray_eq_some_iff.2 ⟨hv', hcount, data, hdata, rfl⟩, trivial, trivial, ?_⟩
      exact (flexvalCmp_array_iff rfl).2 ⟨text, htext⟩

end setters

/-- A setter determines the value after both histories if and only if it settles the values that
they leave. -/
theorem determines_iff {before before' : List (Op F)} {v v' : FlexVal F}
    (h : run D before = some v) (h' : run D before' = some v') (setter : Setter F) :
    Determines D setter before before' ↔ setter.Settles D v ∧ setter.Settles D v' := by
  rw [Determines, run_concat h, run_concat h']
  exact setter_iff setter v v'

theorem determines_number :
    Determines noDoubles (.string ['-', '7']) [.set (.string ['x']), .set (.int 3)]
      [.set (.float ())] := by
  have h : run noDoubles [.set (.string ['x']), .set (.int 3)] =
      some ⟨3, (), ['3'], .integer, 0, []⟩ := rfl
  have h' : run noDoubles [.set (.float ())] = some ⟨0, (), [], .float, 0, []⟩ := rfl
  have hnumber : isNumber ['-', '7'] = true := by decide
  exact (determines_iff noDoubles h h' (.string ['-', '7'])).2
    ⟨⟨by decide, rfl, .inl hnumber⟩, by decide, rfl, .inl hnumber⟩

/-- After an integer, a text that is no number is written as the integer 0; after an element was
appended, an integer can be set once. -/
theorem type_and_length_outlive_setter :
    ¬Determines noDoubles (.string ['x']) [.set (.int 3)] [] ∧
      (∃ w, run noDoubles [.set (.int 3), .set (.string ['x'])] = some w ∧
        flexvalSerialize noDoubles w = some ['0']) ∧
      run noDoubles [.append (FlexVal.create noDoubles), .set (.int 3)] =
        some ⟨3, (), ['3'], .integer, 1, []⟩ ∧
      run noDoubles [.append (FlexVal.create noDoubles), .set (.int 3), .set (.int 3)] = none := by
  have hrun : run noDoubles [.set (.int 3), .set (.string ['x'])] =
      some ⟨0, (), ['x'], .integer, 0, []⟩ := rfl
  refine ⟨?_, ⟨_, hrun, ?_⟩, rfl, rfl⟩
  · rintro ⟨w, -, hw, -, ⟨htype, -⟩, -⟩
    obtain rfl := Option.some.inj (hrun.symm.trans hw)
    cases htype
  · rw [flexvalSerialize]
    rfl

end WebTester.Setters
