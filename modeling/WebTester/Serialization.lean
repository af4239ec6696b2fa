import WebTester.Nesting
import WebTester.Scanf

/-!
# Arrays as text

`flexval_serialize` writes an array as a text in brackets and `flexval_unserialize` reads it. A
value of the program stands for an item: a number of 64 bits, a text without quotes, backslashes,
brackets and ends of lines, or a list of items. The buffers of the reader hold 65536 characters;
nothing is said here of data that do not fit. The reader has three of them on the stack for every
list in a list.
-/
namespace WebTester.Serialization
open CString Flexval Hive Scanf

variable {F : Type} (D : Doubles F)

/-! ## The reader and the array functions -/

/-- The array with these elements. -/
def arrayOf (elems : List (FlexVal F)) : FlexVal F :=
  ⟨0, D.ofLong 0, "Array".toList, .array, elems.length, elems⟩

/-- `flexval_array_append`. As many elements as the length says are read; the pointers are counted
by an `int`. -/
def arrayAppend (v element : FlexVal F) : Option (FlexVal F) :=
  if v.length + 2 < 2 ^ 31 ∧ v.length ≤ v.data.length then
    some ⟨0, D.ofLong 0, "Array".toList, .array, v.length + 1,
      v.data.take v.length ++ [element.dup]⟩
  else none

/-- `flexval_array_append_int`. -/
def arrayAppendInt (v : FlexVal F) (x : ℤ) : Option (FlexVal F) :=
  (FlexVal.setInt D x (FlexVal.create D)).bind (arrayAppend D v)

/-- `flexval_array_append_string`. -/
def arrayAppendString (v : FlexVal F) (s : CStr) : Option (FlexVal F) :=
  (FlexVal.setString D s (FlexVal.create D)).bind (arrayAppend D v)

/-- The loop of `flexval_unserialize_entry` over the tokens. An error, and characters after a value
that is not an array, leave the value of the last token. -/
def unserializeTokens : ℕ → CStr → Option (FlexVal F) → Option (FlexVal F)
  | 0, _, ptr => ptr
  | fuel + 1, data, ptr =>
    match unserializeIterator data with
    | none => ptr
    | some none => ptr
    | some (some (t, rest)) =>
      if t.array then
        let r := unserialize D (t.text.length + 1) t.text
        if r.2 then some (arrayOf D r.1)
        else unserializeTokens fuel rest (some (arrayOf D r.1))
      else if rest.any fun c => ¬schar c ≤ 32 then ptr
      else if t.string then unserializeTokens fuel rest (stringValue D t.text)
      else unserializeTokens fuel rest (smartValue D t.text)

/-- `flexval_unserialize`; `NULL` when there is no token. -/
def flexvalUnserialize (data : CStr) : Option (FlexVal F) :=
  unserializeTokens D (data.length + 1) data none

/-- How many calls of `flexval_unserialize_entry` the loop makes in one another, besides its own. -/
def loopCalls : ℕ → CStr → ℕ
  | 0, _ => 0
  | fuel + 1, data =>
    match unserializeIterator data with
    | none => 0
    | some none => 0
    | some (some (t, rest)) =>
      if t.array then
        max (entryCalls D (t.text.length + 1) t.text)
          (if (unserialize D (t.text.length + 1) t.text).2 then 0 else loopCalls fuel rest)
      else if rest.any fun c => ¬schar c ≤ 32 then 0
      else loopCalls fuel rest

/-- `flexval_unserialize` on a stack. -/
def flexvalUnserializeOn (stack : CallStack) (data : CStr) : Except Stop (Option (FlexVal F)) :=
  if loopCalls D (data.length + 1) data < stack.calls then .ok (flexvalUnserialize D data)
  else .error .fault

/-! ## Items -/

/-- A character that has no meaning of its own in the text of an array. -/
def Plain (c : Char) : Prop :=
  c ≠ '"' ∧ c ≠ '\\' ∧ c ≠ '[' ∧ c ≠ ']' ∧ c ≠ '\n' ∧ c ≠ nul

instance (c : Char) : Decidable (Plain c) := inferInstanceAs (Decidable (_ ∧ _))

inductive Item
  | int (x : ℤ) (lo : -2 ^ 63 ≤ x) (hi : x < 2 ^ 63)
  | text (s : CStr) (plain : ∀ c ∈ s, Plain c)
  | array (items : List Item)

mutual

/-- The text of an item. -/
def Item.serial : Item → CStr
  | .int x _ _ => printLong x
  | .text s _ => '"' :: (s ++ ['"'])
  | .array items => '[' :: (serialAll items ++ [']'])

def serialAll : List Item → CStr
  | [] => []
  | item :: items => item.serial ++ ((if items.isEmpty then [] else [' ']) ++ serialAll items)

end

mutual

/-- How many lists are in one another. -/
def Item.depth : Item → ℕ
  | .int _ _ _ => 0
  | .text _ _ => 0
  | .array items => depthAll items + 1

def depthAll : List Item → ℕ
  | [] => 0
  | item :: items => max item.depth (depthAll items)

end

mutual

/-- The value stands for the item. `T` says which types the value of a text may have. -/
def Item.Holds (T : CStr → FvType → Prop) : Item → FlexVal F → Prop
  | .int x _ _, v => v.type = .integer ∧ v.integer = x
  | .text s _, v => T s v.type ∧ v.pchar = s
  | .array items, v => v.type = .array ∧ v.length = items.length ∧ HoldsAll T items v.data

def HoldsAll (T : CStr → FvType → Prop) : List Item → List (FlexVal F) → Prop
  | [], [] => True
  | item :: items, v :: vs => item.Holds T v ∧ HoldsAll T items vs
  | [], _ :: _ => False
  | _ :: _, [] => False

end

/-- A text of any origin: `flexval_serialize` puts both types into quotes. -/
def Quoted (_ : CStr) (type : FvType) : Prop := type = .string ∨ type = .undefined

/-- A text that `flexval_set_string` has put into a new value: only a number changes the type. -/
def Fresh (s : CStr) (type : FvType) : Prop := type = if isNumber s then .string else .undefined

mutual

lemma Item.Holds.serialize_eq : ∀ {item : Item} {v : FlexVal F}, item.Holds Quoted v →
    v.serialize D = item.serial
  | .int x _ _, ⟨integer, real, pchar, type, length, data⟩, h => by
    obtain ⟨rfl, rfl⟩ : type = .integer ∧ integer = x := h
    rfl
  | .text s _, ⟨integer, real, pchar, type, length, data⟩, h => by
    obtain ⟨rfl | rfl, rfl⟩ : (type = .string ∨ type = .undefined) ∧ pchar = s := h
    · rfl
    · rfl
  | .array items, ⟨integer, real, pchar, type, length, data⟩, h => by
    obtain ⟨rfl, rfl, hdata⟩ :
      type = .array ∧ length = items.length ∧ HoldsAll Quoted items data := h
    rw [FlexVal.serialize, HoldsAll.serialize_eq hdata, Item.serial]

lemma HoldsAll.serialize_eq : ∀ {items : List Item} {vs : List (FlexVal F)},
    HoldsAll Quoted items vs → FlexVal.serializeElems D items.length vs = serialAll items
  | [], [], _ => rfl
  | item :: items, v :: vs, h => by
    obtain ⟨hv, hvs⟩ : item.Holds Quoted v ∧ HoldsAll Quoted items vs := h
    rw [List.length_cons, FlexVal.serializeElems, hv.serialize_eq, HoldsAll.serialize_eq hvs,
      serialAll]
    cases items <;> rfl
  | [], _ :: _, h => h.elim
  | _ :: _, [], h => h.elim

end

/-! ## Brackets -/

lemma takeArray_cons {c : Char} {interior n : ℕ} (hnul : c ≠ nul) (hn : bracket c interior = n)
    (hpos : 0 < n) (rest : CStr) :
    takeArray interior (c :: rest) =
      ⟨(takeArray n rest).closed, c :: (takeArray n rest).text,
        newline c + (takeArray n rest).lines, (takeArray n rest).rest⟩ := by
  subst hn
  rw [takeArray, if_neg hnul, if_neg (by omega)]

/-- A text that the search for the closing bracket passes over as a whole. -/
def Balanced (text : CStr) : Prop :=
  ∀ interior rest, 0 < interior →
    (takeArray interior (text ++ rest)).closed = (takeArray interior rest).closed ∧
    (takeArray interior (text ++ rest)).text = text ++ (takeArray interior rest).text ∧
    (takeArray interior (text ++ rest)).rest = (takeArray interior rest).rest

namespace Balanced

variable {a b : CStr}

lemma nil : Balanced [] := fun _ _ _ => ⟨rfl, rfl, rfl⟩

lemma append (ha : Balanced a) (hb : Balanced b) : Balanced (a ++ b) := by
  intro interior rest hpos
  obtain ⟨haclosed, hatext, harest⟩ := ha interior (b ++ rest) hpos
  obtain ⟨hbclosed, hbtext, hbrest⟩ := hb interior rest hpos
  rw [List.append_assoc]
  refine ⟨haclosed.trans hbclosed, ?_, harest.trans hbrest⟩
  rw [hatext, hbtext, List.append_assoc]

lemma cons {c : Char} (hopen : c ≠ '[') (hclose : c ≠ ']') (hnul : c ≠ nul) (ha : Balanced a) :
    Balanced (c :: a) := by
  intro interior rest hpos
  obtain ⟨hclosed, htext, hrest⟩ := ha interior rest hpos
  have hbracket : bracket c interior = interior := by simp [bracket, hopen, hclose]
  rw [List.cons_append, takeArray_cons hnul hbracket hpos]
  dsimp only
  rw [htext, List.cons_append]
  exact ⟨hclosed, rfl, hrest⟩

lemma of_forall (h : ∀ c ∈ a, c ≠ '[' ∧ c ≠ ']' ∧ c ≠ nul) : Balanced a := by
  induction a with
  | nil => exact nil
  | cons c a ih =>
    obtain ⟨hopen, hclose, hnul⟩ := h c List.mem_cons_self
    exact cons hopen hclose hnul (ih fun d hd => h d (List.mem_cons_of_mem c hd))

/-- The bracket behind a balanced text closes the array. -/
lemma takeArray_one (ha : Balanced a) (rest : CStr) :
    (takeArray 1 (a ++ ']' :: rest)).closed = true ∧
      (takeArray 1 (a ++ ']' :: rest)).text = a ∧
      (takeArray 1 (a ++ ']' :: rest)).rest = rest := by
  obtain ⟨hclosed, htext, hrest⟩ := ha 1 (']' :: rest) Nat.one_pos
  have hend : takeArray 1 (']' :: rest) = ⟨true, [], newline ']', rest⟩ := rfl
  rw [hclosed, htext, hrest, hend]
  exact ⟨rfl, List.append_nil a, rfl⟩

/-- Brackets around a balanced text. -/
lemma brackets (ha : Balanced a) : Balanced ('[' :: (a ++ [']'])) := by
  intro interior rest hpos
  obtain ⟨hclosed, htext, hrest⟩ := ha (interior + 1) (']' :: rest) (by omega)
  have happ : '[' :: (a ++ [']']) ++ rest = '[' :: (a ++ ']' :: rest) := by simp
  have hopen : bracket '[' interior = interior + 1 := rfl
  have hclose : bracket ']' (interior + 1) = interior := rfl
  rw [happ, takeArray_cons (by decide) hopen (by omega)]
  dsimp only
  rw [hclosed, htext, hrest, takeArray_cons (by decide) hclose hpos]
  simp

end Balanced

lemma balanced_printLong (x : ℤ) : Balanced (printLong x) := by
  apply Balanced.of_forall
  intro c hc
  have hne : ∀ d : Char, d.isDigit = false → d ≠ '-' → c ≠ d := by
    rintro d hd hm rfl
    exact notMem_printLong hd hm x hc
  exact ⟨hne _ (by decide) (by decide), hne _ (by decide) (by decide),
    hne _ (by decide) (by decide)⟩

mutual

lemma balanced_serial : ∀ item : Item, Balanced item.serial
  | .int x _ _ => balanced_printLong x
  | .text s plain => by
    have hs : Balanced s := Balanced.of_forall fun c hc => by
      obtain ⟨-, -, hopen, hclose, -, hnul⟩ := plain c hc
      exact ⟨hopen, hclose, hnul⟩
    have hquote : Balanced ['"'] := Balanced.of_forall (by simp [nul])
    exact hquote.append (hs.append hquote)
  | .array items => (balanced_serialAll items).brackets

lemma balanced_serialAll : ∀ items : List Item, Balanced (serialAll items)
  | [] => Balanced.nil
  | item :: items => by
    have hblank : Balanced (if items.isEmpty then [] else [' ']) := by
      split
      · exact Balanced.nil
      · exact Balanced.of_forall (by simp [nul])
    exact (balanced_serial item).append (hblank.append (balanced_serialAll items))

end

/-! ## Tokens -/

/-- The token of an item. -/
def Item.token : Item → Token
  | .int x _ _ => ⟨printLong x, false, false⟩
  | .text s _ => ⟨s, true, false⟩
  | .array items => ⟨serialAll items, false, true⟩

/-- The end of the data, or a blank. -/
def Ends (rest : CStr) : Prop := rest = [] ∨ rest.head? = some ' '

/-- Characters that stand for themselves between quotes. -/
lemma takeElement_literal {s : CStr} (hs : ∀ c ∈ s, c ≠ '"' ∧ c ≠ '\\' ∧ c ≠ '\n')
    (rest : CStr) : takeElement (s ++ '"' :: rest) = some (s, rest) := by
  induction s with
  | nil =>
    rw [List.nil_append, takeElement.eq_def]
    rfl
  | cons c s ih =>
    obtain ⟨hquote, hslash, hline⟩ := hs c List.mem_cons_self
    have hrest := ih fun d hd => hs d (List.mem_cons_of_mem c hd)
    rw [List.cons_append, takeElement.eq_def]
    simp only [if_neg hquote, if_neg hslash, if_neg hline, hrest, Option.map_some]

lemma isArrayGap_digit {c : Char} (h : c.isDigit = true ∨ c = '-') :
    isArrayGap c = false ∧ c ≠ '[' ∧ c ≠ '"' := by
  obtain h | rfl := h
  · have hrange := Char.isDigit_iff_toNat.1 h
    simp only [Char.reduceToNat] at hrange
    have hschar : schar c = c.toNat := by
      unfold schar
      exact Int.bmod_eq_of_le (by omega) (by omega)
    refine ⟨?_, ?_, ?_⟩
    · simp only [isArrayGap, Bool.or_eq_false_iff, decide_eq_false_iff_not]
      omega
    · rintro rfl
      exact absurd h (by decide)
    · rintro rfl
      exact absurd h (by decide)
  · decide

lemma mem_printLong {c : Char} {x : ℤ} (h : c ∈ printLong x) : c.isDigit = true ∨ c = '-' := by
  by_contra hnot
  rw [not_or, Bool.not_eq_true] at hnot
  exact notMem_printLong hnot.1 hnot.2 x h

lemma printLong_ne_nil (x : ℤ) : printLong x ≠ [] := by
  unfold printLong
  split
  · exact List.cons_ne_nil _ _
  · exact decimal_ne_nil _

lemma unserializeIterator_word {word rest : CStr} (hne : word ≠ [])
    (hword : ∀ c ∈ word, isArrayGap c = false ∧ c ≠ '[' ∧ c ≠ '"') (hrest : Ends rest) :
    unserializeIterator (word ++ rest) = some (some (⟨word, false, false⟩, rest)) := by
  have hall : ∀ c ∈ word, (!isArrayGap c) = true := by
    intro c hc
    rw [(hword c hc).1]
    rfl
  have hnone : rest.takeWhile (!isArrayGap ·) = [] ∧ rest.dropWhile (!isArrayGap ·) = rest := by
    obtain rfl | hhead := hrest
    · exact ⟨rfl, rfl⟩
    · obtain ⟨r, rfl⟩ := List.head?_eq_some_iff.1 hhead
      exact ⟨List.takeWhile_cons_of_neg (by decide), List.dropWhile_cons_of_neg (by decide)⟩
  have htake : (word ++ rest).takeWhile (!isArrayGap ·) = word := by
    rw [List.takeWhile_append_of_pos hall, hnone.1, List.append_nil]
  have hdrop : (word ++ rest).dropWhile (!isArrayGap ·) = rest := by
    rw [List.dropWhile_append_of_pos hall, hnone.2]
  obtain ⟨c, cs, rfl⟩ := List.exists_cons_of_ne_nil hne
  obtain ⟨hgap, hopen, hquote⟩ := hword c List.mem_cons_self
  have hskip : (c :: cs ++ rest).dropWhile isArrayGap = c :: cs ++ rest :=
    List.dropWhile_cons_of_neg (by simp [hgap])
  unfold unserializeIterator
  rw [hskip]
  split
  · rename_i heq
    cases heq
  · rename_i heq
    exact absurd (List.cons.inj heq).1 hopen
  · rename_i heq
    exact absurd (List.cons.inj heq).1 hquote
  · rw [htake, hdrop]

lemma unserializeIterator_quote (rest : CStr) : unserializeIterator ('"' :: rest) =
    (takeElement rest).map fun t => some (⟨t.1, true, false⟩, t.2) := by
  have hskip : ('"' :: rest).dropWhile isArrayGap = '"' :: rest :=
    List.dropWhile_cons_of_neg (by decide)
  unfold unserializeIterator
  rw [hskip]
  rfl

lemma unserializeIterator_bracket (rest : CStr) : unserializeIterator ('[' :: rest) =
    if (takeArray 1 rest).closed then
      some (some (⟨(takeArray 1 rest).text, false, true⟩, (takeArray 1 rest).rest))
    else none := by
  have hskip : ('[' :: rest).dropWhile isArrayGap = '[' :: rest :=
    List.dropWhile_cons_of_neg (by decide)
  unfold unserializeIterator
  rw [hskip]
  rfl

/-- Every item is one token. -/
lemma unserializeIterator_serial (item : Item) {rest : CStr} (hrest : Ends rest) :
    unserializeIterator (item.serial ++ rest) = some (some (item.token, rest)) := by
  cases item with
  | int x lo hi =>
    apply unserializeIterator_word (printLong_ne_nil x) _ hrest
    exact fun c hc => isArrayGap_digit (mem_printLong hc)
  | text s plain =>
    have happ : '"' :: (s ++ ['"']) ++ rest = '"' :: (s ++ '"' :: rest) := by simp
    have hliteral : ∀ c ∈ s, c ≠ '"' ∧ c ≠ '\\' ∧ c ≠ '\n' := by
      intro c hc
      obtain ⟨hquote, hslash, -, -, hline, -⟩ := plain c hc
      exact ⟨hquote, hslash, hline⟩
    rw [Item.serial, happ, unserializeIterator_quote, takeElement_literal hliteral]
    rfl
  | array items =>
    have happ : '[' :: (serialAll items ++ [']']) ++ rest =
        '[' :: (serialAll items ++ ']' :: rest) := by simp
    obtain ⟨hclosed, htext, hrest⟩ := (balanced_serialAll items).takeArray_one rest
    rw [Item.serial, happ, unserializeIterator_bracket, if_pos hclosed, htext, hrest]
    rfl

/-! ## Values -/

/-- The sign and the digits of a number that was printed. -/
lemma takeMinus_printLong (x : ℤ) :
    takeMinus (printLong x) = (if x < 0 then -1 else 1, decimal x.natAbs) := by
  unfold printLong
  split_ifs
  · exact takeMinus_minus _
  · refine takeMinus_of_ne fun h => ?_
    exact absurd (isDigit_of_mem_decimal (List.mem_of_mem_head? h)) (by decide)

lemma isInteger_printLong (x : ℤ) : isInteger (printLong x) = true := by
  rw [isInteger_iff, takeMinus_printLong]
  exact fun c => isDigit_of_mem_decimal

lemma flexvalAtol_printLong_bmod (x : ℤ) : flexvalAtol (printLong x) = x.bmod (2 ^ 64) := by
  have hsign : (if x < 0 then -1 else 1) * (x.natAbs : ℤ) = x := by split <;> omega
  have hdigits : ∀ c ∈ (takeMinus (printLong x)).2, c.isDigit := by
    rw [takeMinus_printLong]
    exact fun c => isDigit_of_mem_decimal
  rw [flexvalAtol_decimal hdigits, takeMinus_printLong, digitsValue_decimal, hsign, wrap]

lemma flexvalAtol_printLong {x : ℤ} (hlo : -2 ^ 63 ≤ x) (hhi : x < 2 ^ 63) :
    flexvalAtol (printLong x) = x := by
  rw [flexvalAtol_printLong_bmod]
  exact Int.bmod_eq_of_le (by omega) (by omega)

/-- Only a number of 64 bits is read back. -/
lemma flexvalAtol_printLong_iff (x : ℤ) :
    flexvalAtol (printLong x) = x ↔ -2 ^ 63 ≤ x ∧ x < 2 ^ 63 := by
  constructor
  · intro h
    rw [flexvalAtol_printLong_bmod] at h
    have hlo := Int.le_bmod (x := x) (m := 2 ^ 64) (by decide)
    have hhi := Int.bmod_lt (x := x) (m := 2 ^ 64) (by decide)
    omega
  · rintro ⟨hlo, hhi⟩
    exact flexvalAtol_printLong hlo hhi

lemma holds_smartValue {x : ℤ} (hlo : -2 ^ 63 ≤ x) (hhi : x < 2 ^ 63) :
    ∃ v, smartValue D (printLong x) = some v ∧ (Item.int x hlo hhi).Holds Fresh v := by
  rw [smartValue, if_pos (isInteger_printLong x), flexvalAtol_printLong hlo hhi]
  exact ⟨_, rfl, rfl, rfl⟩

lemma bufferText_eq {s : CStr} (h : s.length ≤ 65534) : FlexVal.bufferText s = s :=
  List.take_of_length_le h

lemma holds_stringValue {s : CStr} (plain : ∀ c ∈ s, Plain c) (hlength : s.length ≤ 65534) :
    ∃ v, stringValue D s = some v ∧ (Item.text s plain).Holds Fresh v := by
  have hvalue : stringValue D s =
      some (FlexVal.evalFromString D { FlexVal.create D with pchar := s }) := by
    change some (FlexVal.evalFromString D
      { FlexVal.create D with pchar := FlexVal.bufferText s }) = _
    rw [bufferText_eq hlength]
  refine ⟨_, hvalue, ?_⟩
  unfold FlexVal.evalFromString Item.Holds Fresh
  dsimp only
  split
  · exact ⟨rfl, rfl⟩
  · exact ⟨rfl, rfl⟩

mutual

/-- A copy stands for the same item. -/
lemma Item.Holds.dup : ∀ {item : Item} {v : FlexVal F}, item.Holds Fresh v →
    item.serial.length ≤ 65534 → item.Holds Fresh v.dup
  | .int x _ _, ⟨integer, real, pchar, type, length, data⟩, h, _ => by
    obtain ⟨rfl, rfl⟩ : type = .integer ∧ integer = x := h
    exact ⟨rfl, rfl⟩
  | .text s _, ⟨integer, real, pchar, type, length, data⟩, h, hlength => by
    obtain ⟨htype, rfl⟩ : Fresh s type ∧ pchar = s := h
    have hne : type ≠ .array := by
      rw [htype]
      split <;> decide
    have hpchar : pchar.length ≤ 65534 := by
      simp only [Item.serial, List.length_cons, List.length_append] at hlength
      omega
    rw [FlexVal.dup, if_neg hne, bufferText_eq hpchar]
    exact ⟨htype, rfl⟩
  | .array items, ⟨integer, real, pchar, type, length, data⟩, h, hlength => by
    obtain ⟨rfl, hlen, hdata⟩ :
      type = .array ∧ length = items.length ∧ HoldsAll Fresh items data := h
    have hitems : (serialAll items).length ≤ 65534 := by
      simp only [Item.serial, List.length_cons, List.length_append] at hlength
      omega
    rw [FlexVal.dup, if_pos rfl]
    exact ⟨rfl, hlen, hdata.dup hitems⟩

lemma HoldsAll.dup : ∀ {items : List Item} {vs : List (FlexVal F)}, HoldsAll Fresh items vs →
    (serialAll items).length ≤ 65534 → HoldsAll Fresh items (FlexVal.dupElems vs)
  | [], [], _, _ => trivial
  | item :: items, v :: vs, h, hlength => by
    obtain ⟨hv, hvs⟩ : item.Holds Fresh v ∧ HoldsAll Fresh items vs := h
    simp only [serialAll, List.length_append] at hlength
    exact ⟨hv.dup (by omega), hvs.dup (by omega)⟩
  | [], _ :: _, h, _ => h.elim
  | _ :: _, [], h, _ => h.elim

end

lemma HoldsAll.length_eq {T : CStr → FvType → Prop} {items : List Item} {vs : List (FlexVal F)}
    (h : HoldsAll T items vs) : vs.length = items.length := by
  induction items generalizing vs with
  | nil =>
    cases vs with
    | nil => rfl
    | cons v vs => exact h.elim
  | cons item items ih =>
    cases vs with
    | nil => exact h.elim
    | cons v vs => rw [List.length_cons, List.length_cons, ih h.2]

/-! ## Reading what was written -/

/-- The value of an element of an array. -/
def elementValue (fuel : ℕ) (t : Token) : Option (FlexVal F) :=
  if t.array then
    if (unserialize D fuel t.text).2 then none else some (arrayOf D (unserialize D fuel t.text).1)
  else if t.string then stringValue D t.text
  else smartValue D t.text

variable {D}

lemma unserialize_some {fuel : ℕ} {data rest : CStr} {t : Token} {v : FlexVal F}
    (hit : unserializeIterator data = some (some (t, rest)))
    (hv : elementValue D fuel t = some v) :
    unserialize D (fuel + 1) data =
      (v.dup :: (unserialize D fuel rest).1, (unserialize D fuel rest).2) := by
  unfold elementValue arrayOf at hv
  rw [unserialize, hit]
  dsimp only
  rw [hv]

lemma unserialize_blank (fuel : ℕ) (data : CStr) :
    unserialize D fuel (' ' :: data) = unserialize D fuel data := by
  have hit : unserializeIterator (' ' :: data) = unserializeIterator data := by
    unfold unserializeIterator
    rw [List.dropWhile_cons_of_pos (by decide)]
  cases fuel with
  | zero => rfl
  | succ fuel => rw [unserialize, unserialize, hit]

lemma serial_ne_nil (item : Item) : 0 < item.serial.length := by
  cases item with
  | int x lo hi => exact List.length_pos_iff.2 (printLong_ne_nil x)
  | text s plain => simp [Item.serial]
  | array items => simp [Item.serial]

lemma unserialize_serialAll {fuel : ℕ} {items : List Item}
    (hfuel : (serialAll items).length < fuel) (hlength : (serialAll items).length ≤ 65534) :
    ∃ ws, unserialize D fuel (serialAll items) = (ws, false) ∧ HoldsAll Fresh items ws := by
  induction fuel generalizing items with
  | zero => omega
  | succ fuel ih =>
    cases items with
    | nil => exact ⟨[], rfl, trivial⟩
    | cons item items =>
      have hpos := serial_ne_nil item
      simp only [serialAll, List.length_append] at hfuel hlength
      have hrest : Ends ((if items.isEmpty then [] else [' ']) ++ serialAll items) := by
        cases items with
        | nil => exact .inl rfl
        | cons item items => exact .inr rfl
      have htail : unserialize D fuel ((if items.isEmpty then [] else [' ']) ++ serialAll items) =
          unserialize D fuel (serialAll items) := by
        cases items with
        | nil => rfl
        | cons item items => exact unserialize_blank fuel _
      obtain ⟨v, hv, hholds⟩ : ∃ v, elementValue D fuel item.token = some v ∧
          item.Holds Fresh v := by
        cases item with
        | int x lo hi => exact holds_smartValue D lo hi
        | text s plain =>
          apply holds_stringValue D plain
          simp only [Item.serial, List.length_cons, List.length_append] at hlength
          omega
        | array elems =>
          simp only [Item.serial, List.length_cons, List.length_append] at hfuel hlength
          obtain ⟨ws, hws, hall⟩ := @ih elems (by omega) (by omega)
          refine ⟨arrayOf D ws, ?_, rfl, hall.length_eq, hall⟩
          simp only [elementValue, Item.token, hws]
          rfl
      obtain ⟨ws, hws, hall⟩ := @ih items (by omega) (by omega)
      refine ⟨v.dup :: ws, ?_, hholds.dup (by omega), hall⟩
      rw [serialAll, unserialize_some (unserializeIterator_serial item hrest) hv, htail, hws]

lemma entryCalls_blank (fuel : ℕ) (data : CStr) :
    entryCalls D fuel (' ' :: data) = entryCalls D fuel data := by
  have hit : unserializeIterator (' ' :: data) = unserializeIterator data := by
    unfold unserializeIterator
    rw [List.dropWhile_cons_of_pos (by decide)]
  cases fuel with
  | zero => rfl
  | succ fuel => rw [entryCalls, entryCalls, hit]

/-- The reader calls itself for every list in a list. -/
lemma entryCalls_serialAll {fuel : ℕ} {items : List Item}
    (hfuel : (serialAll items).length < fuel) (hlength : (serialAll items).length ≤ 65534) :
    entryCalls D fuel (serialAll items) = depthAll items := by
  induction fuel generalizing items with
  | zero => omega
  | succ fuel ih =>
    cases items with
    | nil => rfl
    | cons item items =>
      have hpos := serial_ne_nil item
      simp only [serialAll, List.length_append] at hfuel hlength
      have hrest : Ends ((if items.isEmpty then [] else [' ']) ++ serialAll items) := by
        cases items with
        | nil => exact .inl rfl
        | cons item items => exact .inr rfl
      have htail : entryCalls D fuel ((if items.isEmpty then [] else [' ']) ++ serialAll items) =
          depthAll items := by
        rw [← @ih items (by omega) (by omega)]
        cases items with
        | nil => rfl
        | cons item items => exact entryCalls_blank fuel _
      rw [serialAll, entryCalls, unserializeIterator_serial item hrest]
      generalize (if items.isEmpty then [] else [' ']) ++ serialAll items = rest at htail ⊢
      cases item with
      | int x lo hi => simp [Item.token, htail, depthAll, Item.depth]
      | text s plain => simp [Item.token, htail, depthAll, Item.depth]
      | array elems =>
        simp only [Item.serial, List.length_cons, List.length_append] at hfuel hlength
        obtain ⟨ws, hws, -⟩ := @unserialize_serialAll _ D fuel elems (by omega) (by omega)
        have hcalls := @ih elems (by omega) (by omega)
        simp [Item.token, htail, depthAll, Item.depth, hws, hcalls]

/-- An array of 64-bit numbers and plain texts is read back from its text: the same numbers and
texts stand at the same places, and every text has the type that it has in a new value. -/
lemma unserialize_serialize {items : List Item} {v : FlexVal F}
    (hv : (Item.array items).Holds Quoted v) (hlength : (v.serialize D).length < 65535) :
    ∃ w, flexvalUnserialize D (v.serialize D) = some w ∧ (Item.array items).Holds Fresh w := by
  rw [hv.serialize_eq] at hlength ⊢
  have hserial : (serialAll items).length ≤ 65534 := by
    simp only [Item.serial, List.length_cons, List.length_append] at hlength
    omega
  obtain ⟨ws, hws, hall⟩ := @unserialize_serialAll _ D _ items (Nat.lt_succ_self _) hserial
  refine ⟨arrayOf D ws, ?_, rfl, hall.length_eq, hall⟩
  have hit := unserializeIterator_serial (.array items) (.inl rfl)
  rw [List.append_nil] at hit
  obtain ⟨fuel, hfuel⟩ : ∃ fuel, (Item.array items).serial.length = fuel + 1 :=
    ⟨_, (Nat.succ_pred_eq_of_pos (serial_ne_nil _)).symm⟩
  rw [flexvalUnserialize, hfuel, unserializeTokens, hit]
  simp only [Item.token, hws]
  rfl

lemma loopCalls_serialize {items : List Item} {v : FlexVal F}
    (hv : (Item.array items).Holds Quoted v) (hlength : (v.serialize D).length < 65535) :
    loopCalls D ((v.serialize D).length + 1) (v.serialize D) = depthAll items := by
  rw [hv.serialize_eq] at hlength ⊢
  have hserial : (serialAll items).length ≤ 65534 := by
    simp only [Item.serial, List.length_cons, List.length_append] at hlength
    omega
  obtain ⟨ws, hws, -⟩ := @unserialize_serialAll _ D _ items (Nat.lt_succ_self _) hserial
  have hcalls := @entryCalls_serialAll _ D _ items (Nat.lt_succ_self _) hserial
  have hit := unserializeIterator_serial (.array items) (.inl rfl)
  rw [List.append_nil] at hit
  obtain ⟨fuel, hfuel⟩ : ∃ fuel, (Item.array items).serial.length = fuel + 1 :=
    ⟨_, (Nat.succ_pred_eq_of_pos (serial_ne_nil _)).symm⟩
  have hend : loopCalls D (fuel + 1) [] = 0 := rfl
  rw [hfuel, loopCalls, hit]
  simp [Item.token, hws, hcalls, hend]

/-- The text of an array of 64-bit numbers and plain texts gives these back. -/
def ReadsBack (D : Doubles F) (stack : CallStack) (items : List Item) (v : FlexVal F) : Prop :=
  ∃ w, flexvalUnserializeOn D stack (v.serialize D) = .ok (some w) ∧
    (Item.array items).Holds Fresh w

/-- An array that is too deep for the stack is not read back. -/
lemma not_readsBack_of_deep {stack : CallStack} {items : List Item} {v : FlexVal F}
    (hv : (Item.array items).Holds Quoted v) (hlength : (v.serialize D).length < 65535)
    (hdeep : stack.calls < (Item.array items).depth) : ¬ReadsBack D stack items v := by
  rintro ⟨w, hw, -⟩
  rw [Item.depth] at hdeep
  rw [flexvalUnserializeOn, loopCalls_serialize hv hlength, if_neg (by omega)] at hw
  cases hw

/-- An array of 64-bit numbers and plain texts is read back from its text exactly when the stack has
room for a call for each of the lists that are in one another. -/
theorem readsBack_iff_depth {items : List Item} {v : FlexVal F} (stack : CallStack)
    (hv : (Item.array items).Holds Quoted v) (hlength : (v.serialize D).length < 65535) :
    ReadsBack D stack items v ↔ (Item.array items).depth ≤ stack.calls := by
  constructor
  · intro hback
    by_contra hdeep
    exact not_readsBack_of_deep hv hlength (Nat.lt_of_not_le hdeep) hback
  · intro hdepth
    obtain ⟨w, hw, hholds⟩ := unserialize_serialize hv hlength
    rw [Item.depth] at hdepth
    refine ⟨w, ?_, hholds⟩
    rw [flexvalUnserializeOn, loopCalls_serialize hv hlength, if_pos (by omega), hw]

/-! ## Arrays that the program builds -/

mutual

lemma Item.Holds.quoted : ∀ {item : Item} {v : FlexVal F}, item.Holds Fresh v →
    item.Holds Quoted v
  | .int _ _ _, _, h => h
  | .text s _, v, h => by
    refine ⟨?_, h.2⟩
    have htype : v.type = if isNumber s then .string else .undefined := h.1
    rw [htype]
    split
    · exact .inl rfl
    · exact .inr rfl
  | .array _, _, h => ⟨h.1, h.2.1, h.2.2.quoted⟩

lemma HoldsAll.quoted : ∀ {items : List Item} {vs : List (FlexVal F)}, HoldsAll Fresh items vs →
    HoldsAll Quoted items vs
  | [], [], _ => trivial
  | _ :: _, _ :: _, h => ⟨h.1.quoted, h.2.quoted⟩
  | [], _ :: _, h => h.elim
  | _ :: _, [], h => h.elim

end

lemma HoldsAll.concat {items : List Item} {item : Item} {vs : List (FlexVal F)} {e : FlexVal F}
    (h : HoldsAll Fresh items vs) (he : item.Holds Fresh e) :
    HoldsAll Fresh (items ++ [item]) (vs ++ [e]) := by
  induction items generalizing vs with
  | nil =>
    cases vs with
    | nil => exact ⟨he, trivial⟩
    | cons v vs => exact h.elim
  | cons i items ih =>
    cases vs with
    | nil => exact h.elim
    | cons v vs => exact ⟨h.1, ih h.2⟩

variable (D)

/-- `flexval_array_append` adds an item, as long as an `int` counts the pointers and the texts fit
into the buffer. -/
lemma Item.Holds.append {items : List Item} {item : Item} {v e : FlexVal F}
    (hv : (Item.array items).Holds Fresh v) (he : item.Holds Fresh e)
    (hlength : items.length + 2 < 2 ^ 31) (hitem : item.serial.length ≤ 65534) :
    ∃ w, arrayAppend D v e = some w ∧ (Item.array (items ++ [item])).Holds Fresh w := by
  obtain ⟨-, hlen, hdata⟩ := hv
  have heq : v.length = v.data.length := hlen.trans hdata.length_eq.symm
  have hroom : v.length + 2 < 2 ^ 31 := by rwa [hlen]
  rw [arrayAppend, if_pos ⟨hroom, heq.le⟩, heq, List.take_length]
  refine ⟨_, rfl, rfl, ?_, hdata.concat (he.dup hitem)⟩
  dsimp only
  rw [hdata.length_eq, List.length_append, List.length_singleton]

lemma Item.Holds.appendInt {items : List Item} {v : FlexVal F} {x : ℤ}
    (hv : (Item.array items).Holds Fresh v) (hlo : -2 ^ 63 ≤ x) (hhi : x < 2 ^ 63)
    (hlength : items.length + 2 < 2 ^ 31) (hitem : (printLong x).length ≤ 65534) :
    ∃ w, arrayAppendInt D v x = some w ∧ (Item.array (items ++ [.int x hlo hhi])).Holds Fresh w :=
  hv.append D ⟨rfl, rfl⟩ hlength hitem

lemma Item.Holds.appendString {items : List Item} {v : FlexVal F} {s : CStr}
    (hv : (Item.array items).Holds Fresh v) (plain : ∀ c ∈ s, Plain c)
    (hlength : items.length + 2 < 2 ^ 31) (hs : s.length ≤ 65532) :
    ∃ w, arrayAppendString D v s = some w ∧
      (Item.array (items ++ [.text s plain])).Holds Fresh w := by
  obtain ⟨e, he, hholds⟩ := holds_stringValue D plain (by omega)
  have hvalue : arrayAppendString D v s = arrayAppend D v e := by
    unfold arrayAppendString
    rw [show FlexVal.setString D s (FlexVal.create D) = some e from he, Option.bind_some]
  rw [hvalue]
  apply hv.append D hholds hlength
  simp only [Item.serial, List.length_cons, List.length_append, List.length_nil]
  omega

lemma holds_arrayOf_nil : (Item.array []).Holds Fresh (arrayOf D []) := ⟨rfl, rfl, trivial⟩

/-- `["a b" [-9223372036854775808 "12"] []]`. -/
def sampleBuild : Option (FlexVal Unit) := do
  let inner ← arrayAppendInt noDoubles (arrayOf noDoubles []) (-2 ^ 63)
  let inner ← arrayAppendString noDoubles inner "12".toList
  let v ← arrayAppendString noDoubles (arrayOf noDoubles []) "a b".toList
  let v ← arrayAppend noDoubles v inner
  arrayAppend noDoubles v (arrayOf noDoubles [])

def sampleItems : List Item :=
  [.text "a b".toList (by simp [Plain, nul]), .array [.int (-2 ^ 63) (by decide) (by decide),
    .text "12".toList (by simp [Plain, nul])], .array []]

lemma holds_sampleBuild : ∃ v, sampleBuild = some v ∧ (Item.array sampleItems).Holds Fresh v := by
  have hempty := holds_arrayOf_nil noDoubles
  obtain ⟨inner, hinner, hholds⟩ := hempty.appendInt noDoubles
    (show -2 ^ 63 ≤ (-2 ^ 63 : ℤ) by decide) (by decide) (by decide) (by decide)
  obtain ⟨inner', hinner', hholds'⟩ := hholds.appendString noDoubles
    (show ∀ c ∈ "12".toList, Plain c by simp [Plain, nul]) (by decide) (by decide)
  obtain ⟨v, hv, hvholds⟩ := hempty.appendString noDoubles
    (show ∀ c ∈ "a b".toList, Plain c by simp [Plain, nul]) (by decide) (by decide)
  obtain ⟨v', hv', hvholds'⟩ := hvholds.append noDoubles hholds' (by decide) (by decide +kernel)
  obtain ⟨w, hw, hwholds⟩ := hvholds'.append noDoubles hempty (by decide) (by decide)
  refine ⟨w, ?_, hwholds⟩
  simp only [sampleBuild, hinner, hinner', hv, hv', hw, Option.bind_eq_bind, Option.bind_some]

/-- Eight MiB, and the buffers of `flexval_unserialize_entry`. -/
def entryStack : CallStack := ⟨2 ^ 23, 3 * 2 ^ 16⟩

theorem readsBack_iff_depth_sampleItems :
    ∃ v, sampleBuild = some v ∧ (Item.array sampleItems).Holds Quoted v ∧
      ReadsBack noDoubles entryStack sampleItems v := by
  obtain ⟨v, hv, hholds⟩ := holds_sampleBuild
  have hlength : (v.serialize noDoubles).length < 65535 := by
    rw [hholds.quoted.serialize_eq]
    decide +kernel
  refine ⟨v, hv, hholds.quoted, (readsBack_iff_depth entryStack hholds.quoted hlength).2 ?_⟩
  decide

/-- A list in a list in a list, and so on, and its value. -/
def nested : ℕ → List Item
  | 0 => []
  | n + 1 => [.array (nested n)]

def nestedValue : ℕ → FlexVal Unit
  | 0 => arrayOf noDoubles []
  | n + 1 => arrayOf noDoubles [nestedValue n]

lemma holds_nestedValue (n : ℕ) : (Item.array (nested n)).Holds Quoted (nestedValue n) := by
  induction n with
  | zero => exact ⟨rfl, rfl, trivial⟩
  | succ n ih => exact ⟨rfl, rfl, ih, trivial⟩

/-- Forty-three pairs of brackets need more than eight MiB. -/
theorem not_readsBack_nested :
    (Item.array (nested 42)).Holds Quoted (nestedValue 42) ∧
    ((nestedValue 42).serialize noDoubles).length < 65535 ∧
    ¬ReadsBack noDoubles entryStack (nested 42) (nestedValue 42) := by
  have hlength : ((nestedValue 42).serialize noDoubles).length < 65535 := by decide +kernel
  exact ⟨holds_nestedValue 42, hlength,
    not_readsBack_of_deep (holds_nestedValue 42) hlength (by decide +kernel)⟩

end WebTester.Serialization
