import WebTester.FlexVal
import WebTester.Unpacking

/-!
# The wire format of the statistics

The server writes its variables with `dump_arr_to_buf` and puts the whole under the key
`vars` of an outer packed array. The front end reads the outer array and then the value of
`vars` with `assarr_unpack`.
-/
namespace WebTester.Stat
open CString Assarr Flexval Loop

/-- `snprintf` into a buffer. -/
def snprintf (size : ℕ) (s : CStr) : CStr := s.take (size - 1)

lemma snprintf_of_lt {size : ℕ} {s : CStr} (h : s.length < size) : snprintf size s = s :=
  List.take_of_length_le (by omega)

/-- `sizeof (stat)` and `BUFSIZE`. -/
def bufSize : ℕ := 65536

section Server

variable {F : Type} (D : Doubles F)

/-- One variable in `dump_arr_to_buf`, with the length printed by `%ld`. -/
def dumpEntry (e : CStr × FlexVal F) : CStr :=
  packEntry (decimal (e.2.serialize D).length) (e.1, e.2.serialize D)

/-- `dump_arr_to_buf`. -/
def dumpArrToBuf (vars : AssArr (FlexVal F)) : CStr := vars.entries.flatMap (dumpEntry D)

/-- `dump_stat_to_buf`. -/
def dumpStatToBuf (vars : AssArr (FlexVal F)) : CStr :=
  packEntry (decimal (dumpArrToBuf D vars).length) ("vars".toList, dumpArrToBuf D vars)

/-- `sock_answer` with `+OK %s\n`. -/
def answer (stat : CStr) : CStr := snprintf bufSize ("+OK ".toList ++ (stat ++ ['\n']))

/-- `send_stat_to_client` for `stat packed`. -/
def sendPackedStat (access : ℤ) (vars : AssArr (FlexVal F)) : Option CStr :=
  if access < 7 then none else some (answer (dumpStatToBuf D vars))

/-- `send_stat_changes`. -/
def sendStatChanges (access : ℤ) (vars : AssArr (FlexVal F)) : Option CStr :=
  if access < 7 then none
  else if dumpArrToBuf D vars = [] then none
  else some (answer (snprintf bufSize (dumpStatToBuf D vars)))

end Server

/-- `unpack_stat` of the front end: the arrays `stat_arr` and `vars_arr` afterwards. -/
def unpackStat (fuel : ℕ) (junk junk' line : CStr) (statArr varsArr : AssArr CStr) :
    Option (AssArr CStr × AssArr CStr) := do
  let statArr ← assarrUnpack fuel junk (line.drop 4) statArr
  let vars ← statArr.getValue "vars".toList
  let varsArr ← assarrUnpack fuel junk' vars varsArr
  return (statArr, varsArr)

section Decoding

variable {F : Type} {D : Doubles F} {vars : AssArr (FlexVal F)}

/-- A variable that the front end can read. -/
structure Sendable (D : Doubles F) (e : CStr × FlexVal F) : Prop where
  key_ne : e.1 ≠ []
  key_clean : ';' ∉ e.1
  serialize_ne : e.2.serialize D ≠ []
  serialize_head : (e.2.serialize D).head? ≠ some ';'

instance (D : Doubles F) (e : CStr × FlexVal F) : Decidable (Sendable D e) :=
  decidable_of_iff
    (e.1 ≠ [] ∧ ';' ∉ e.1 ∧ e.2.serialize D ≠ [] ∧ (e.2.serialize D).head? ≠ some ';')
    ⟨fun h => ⟨h.1, h.2.1, h.2.2.1, h.2.2.2⟩, fun h => ⟨h.1, h.2, h.3, h.4⟩⟩

/-- The texts of the variables. -/
def serialized (D : Doubles F) (vars : AssArr (FlexVal F)) : List (CStr × CStr) :=
  vars.entries.map fun e => (e.1, e.2.serialize D)

lemma dumpArrToBuf_eq (D : Doubles F) (vars : AssArr (FlexVal F)) : dumpArrToBuf D vars =
    (serialized D vars).flatMap fun e => packEntry (decimal e.2.length) e := by
  unfold dumpArrToBuf serialized
  rw [List.flatMap_map]
  rfl

lemma lookup_serialized (D : Doubles F) (vars : AssArr (FlexVal F)) (key : CStr) :
    (serialized D vars).lookup key = (vars.getValue key).map (FlexVal.serialize D) := by
  rw [← AssArr.lookup_entries]
  unfold serialized
  induction vars.entries with
  | nil => rfl
  | cons e es ih =>
    rw [List.map_cons, Assoc.lookup_cons_ite, ih]
    obtain ⟨k, v⟩ := e
    rw [Assoc.lookup_cons_ite]
    split <;> rfl

/-- The dump starts with a key. -/
lemma head_dumpArrToBuf (h : ∀ e ∈ vars.entries, Sendable D e) :
    (dumpArrToBuf D vars).head? ≠ some ';' := by
  unfold dumpArrToBuf
  cases he : vars.entries with
  | nil => simp
  | cons e es =>
    have hs : Sendable D e := h e (by simp [he])
    obtain ⟨c, cs, hcs⟩ := List.exists_cons_of_ne_nil hs.key_ne
    have hc : c ≠ ';' := by
      rintro rfl
      exact hs.key_clean (by simp [hcs])
    simpa [dumpEntry, packEntry, hcs] using hc

lemma length_dumpStatToBuf (D : Doubles F) (vars : AssArr (FlexVal F)) :
    (dumpStatToBuf D vars).length =
      (decimal (dumpArrToBuf D vars).length).length + (dumpArrToBuf D vars).length + 7 := by
  have hkey : "vars".toList.length = 4 := by decide
  unfold dumpStatToBuf packEntry
  simp only [List.length_append, List.length_cons, List.length_nil, hkey]
  omega

lemma length_serialize_le {e : CStr × FlexVal F} (he : e ∈ vars.entries) :
    (e.2.serialize D).length ≤ (dumpArrToBuf D vars).length := by
  have hinfix : dumpEntry D e <:+: dumpArrToBuf D vars := by
    unfold dumpArrToBuf
    exact List.infix_of_mem_flatten (List.mem_map_of_mem he)
  have hlen := hinfix.length_le
  unfold dumpEntry packEntry at hlen
  simp only [List.length_append, List.length_cons] at hlen
  omega

/-- The front end reads a line as the texts of the variables. -/
def DecodesTo (D : Doubles F) (vars : AssArr (FlexVal F)) (line : CStr) : Prop :=
  ∀ junk junk', ∃ fuel b,
    (∀ m, fuel ≤ m → ∃ a, unpackStat m junk junk' line .create .create = some (a, b)) ∧
      ∀ key, b.getValue key = (vars.getValue key).map (FlexVal.serialize D)

/-- What the front end makes of the text of `dump_stat_to_buf`. -/
theorem decodesTo_dump (h : ∀ e ∈ vars.entries, Sendable D e)
    (hfit : (dumpStatToBuf D vars).length < bufSize) :
    DecodesTo D vars ("+OK ".toList ++ (dumpStatToBuf D vars ++ ['\n'])) := by
  intro junk junk'
  have hbody : (dumpArrToBuf D vars).length < 2 ^ 63 := by
    rw [length_dumpStatToBuf] at hfit
    unfold bufSize at hfit
    omega
  have houter : Legible (decimal (dumpArrToBuf D vars).length)
      ("vars".toList, dumpArrToBuf D vars) :=
    legible_decimal (by decide) (by decide) (by decide) hbody (head_dumpArrToBuf h)
  have hinner : ∀ e ∈ serialized D vars, Legible (decimal e.2.length) e := by
    intro e he
    obtain ⟨f, hf, rfl⟩ := List.mem_map.1 he
    have hs := h f hf
    have hlen := length_serialize_le (D := D) hf
    exact legible_decimal hs.key_ne hs.key_clean (AssArr.hash_of_mem hf) (hlen.trans_lt hbody)
      hs.serialize_head
  have hnodup : ((serialized D vars).map Prod.fst).Nodup := by
    unfold serialized
    rw [List.map_map]
    exact vars.nodup_entries
  obtain ⟨fuel₁, a, ha, hvars⟩ := unpack_single junk houter (show ';' ∉ ['\n'] by decide)
  obtain ⟨fuel₂, b, hb, hgetb⟩ :=
    unpack_legible (fun e => decimal e.2.length) junk' hnodup hinner List.not_mem_nil
  refine ⟨max fuel₁ fuel₂, b, fun m hm => ⟨a, ?_⟩, fun key => ?_⟩
  · have h₁ := ha m (le_of_max_le_left hm)
    have h₂ := hb m (le_of_max_le_right hm)
    rw [List.append_nil, ← dumpArrToBuf_eq] at h₂
    unfold unpackStat
    rw [List.drop_left' (by rfl)]
    unfold dumpStatToBuf
    simp only [h₁, hvars, h₂, Option.bind_eq_bind, Option.bind_some, Option.pure_def]
  · rw [hgetb, lookup_serialized]

lemma answer_of_fit {s : CStr} (h : s.length + 5 < bufSize) :
    answer s = "+OK ".toList ++ (s ++ ['\n']) :=
  snprintf_of_lt (by simpa using h)

lemma dumpArrToBuf_ne_nil (h : vars.entries ≠ []) : dumpArrToBuf D vars ≠ [] := by
  obtain ⟨e, es, he⟩ := List.exists_cons_of_ne_nil h
  unfold dumpArrToBuf
  rw [he]
  simp [dumpEntry, packEntry]

/-- A change that fits is received as it is. -/
lemma sendStatChanges_decodes {access : ℤ} (h : ∀ e ∈ vars.entries, Sendable D e)
    (hfit : (dumpStatToBuf D vars).length + 5 < bufSize) (hacc : 7 ≤ access)
    (hne : vars.entries ≠ []) :
    ∃ line, sendStatChanges D access vars = some line ∧ DecodesTo D vars line := by
  have hadmin : ¬access < 7 := by omega
  have hdecodes := decodesTo_dump h (by omega)
  rw [← answer_of_fit hfit] at hdecodes
  refine ⟨_, ?_, hdecodes⟩
  unfold sendStatChanges
  rw [if_neg hadmin, if_neg (dumpArrToBuf_ne_nil hne), snprintf_of_lt (by omega)]

/-- Every array that fits is received as it is, as the answer to `stat packed` and, unless
it is empty, as a change. -/
theorem stat_line_decodes {access : ℤ} (h : ∀ e ∈ vars.entries, Sendable D e)
    (hfit : (dumpStatToBuf D vars).length + 5 < bufSize) (hacc : 7 ≤ access) :
    (∃ line, sendPackedStat D access vars = some line ∧ DecodesTo D vars line) ∧
    (vars.entries ≠ [] →
      ∃ line, sendStatChanges D access vars = some line ∧ DecodesTo D vars line) := by
  have hadmin : ¬access < 7 := by omega
  have hdecodes := decodesTo_dump h (by omega)
  rw [← answer_of_fit hfit] at hdecodes
  refine ⟨⟨_, ?_, hdecodes⟩, sendStatChanges_decodes h hfit hacc⟩
  unfold sendPackedStat
  rw [if_neg hadmin]

end Decoding

/-- Whole numbers in the place of `double`. -/
def wholeDoubles : Doubles ℤ where
  ofLong := id
  toLong := id
  flexvalAtolf := flexvalAtol
  print n x := printLong x ++ '.' :: List.replicate n '0'

/-- A number and a text with a `;` in it. -/
def twoVars : List (CStr × FlexVal ℤ) :=
  [("Size".toList, ⟨5, 5, "5".toList, .integer, 0, []⟩),
    ("Name".toList, ⟨0, 0, ";1;".toList, .undefined, 0, []⟩)]

def twoVarsArr : AssArr (FlexVal ℤ) :=
  (AssArr.setAll twoVars .create).get (AssArr.setAll_isSome.2 (by decide))

lemma twoVarsArr_perm : twoVarsArr.entries.Perm twoVars :=
  AssArr.entries_perm (by decide) (Option.some_get _).symm

lemma length_dump_twoVarsArr : (dumpStatToBuf wholeDoubles twoVarsArr).length + 5 < bufSize := by
  have hbody : (dumpArrToBuf wholeDoubles twoVarsArr).Perm
      (twoVars.flatMap (dumpEntry wholeDoubles)) :=
    twoVarsArr_perm.flatMap_right (dumpEntry wholeDoubles)
  rw [length_dumpStatToBuf, hbody.length_eq]
  decide

theorem stat_line_decodes_twoVars :
    (∃ line, sendPackedStat wholeDoubles 7 twoVarsArr = some line ∧
      DecodesTo wholeDoubles twoVarsArr line) ∧
    ∃ line, sendStatChanges wholeDoubles 7 twoVarsArr = some line ∧
      DecodesTo wholeDoubles twoVarsArr line := by
  have hsend : ∀ e ∈ twoVars, Sendable wholeDoubles e := by decide
  have h := stat_line_decodes (fun e he => hsend e (twoVarsArr_perm.mem_iff.1 he))
    length_dump_twoVarsArr (le_refl (7 : ℤ))
  exact ⟨h.1, h.2 (List.ne_nil_of_mem (twoVarsArr_perm.mem_iff.2 List.mem_cons_self))⟩

end WebTester.Stat
