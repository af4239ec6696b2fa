import WebTester.FlexVal

/-!
# Values that a client was sent

For every client the server keeps copies of the values it has sent, made with
`flexval_copy` and compared with `flexval_cmp`. The results here say for one variable when
the comparison notices exactly the changes of the serialized text, and when a copy
compares as equal to its original.
-/
namespace WebTester.Flexval
open CString

/-- A text as it is serialized. -/
def quote (s : CStr) : CStr := '"' :: (s ++ ['"'])

lemma quote_inj {s t : CStr} : quote s = quote t ↔ s = t := by
  simp [quote]

/-- What printing a `double` with six decimals never gives. -/
structure Doubles.Printing {F : Type} (D : Doubles F) : Prop where
  ne_printLong : ∀ r x, D.print 6 r ≠ printLong x
  ne_quote : ∀ r s, D.print 6 r ≠ quote s

lemma printLong_ne_quote (x : ℤ) (s : CStr) : printLong x ≠ quote s := by
  intro h
  have hq : '"' ∈ printLong x := by
    rw [h]
    exact List.mem_cons_self
  exact notMem_printLong (by decide) (by decide) x hq

namespace FlexVal

variable {F : Type} {D : Doubles F} {v c c' : FlexVal F} {t : CStr}

/-- What holds of every variable: a text that is a number has made the type a string, and
texts have gone through a buffer. -/
structure Settled (v : FlexVal F) : Prop where
  undefined : v.type = .undefined → isNumber v.pchar = false
  string : v.type = .string → bufferText v.pchar = v.pchar

/-- A copy that the server keeps for a client, and the text that the client was sent. -/
def Shows (D : Doubles F) (c : FlexVal F) (t : CStr) : Prop :=
  c.length = 0 ∧
    match c.type with
    | .undefined => ∃ p, isNumber p = false ∧ t = quote p
    | .integer => c.pchar = t ∧ ∃ x, t = printLong x
    | .string => t = quote c.pchar
    | .float => t = D.print 6 c.real
    | .array => False

/-- A value that `flexval_copy` and `flexval_cmp` follow. A number has the text that was
made of it. A text is a number, or its copy has the type of a string already. A real
number that replaces another one differs from it in twelve decimals exactly when it does
in six. A text without a type has not been sent yet, or is the one that was sent. -/
structure Followed (D : Doubles F) (v : FlexVal F) (c : Option (FlexVal F)) (t : Option CStr) :
    Prop where
  undefined : v.type = .undefined → c = none ∨ t = some (quote v.pchar)
  integer : v.type = .integer → v.pchar = printLong v.integer
  string : v.type = .string → isNumber v.pchar ∨ ∃ d ∈ c, d.type = .string
  float : v.type = .float → v.pchar = realText D v.real
  float_sent : v.type = .float → ∀ d ∈ c, d.type = .float →
    (v.pchar = d.pchar ↔ some (D.print 6 v.real) = t)
  array : v.type ≠ .array

instance (D : Doubles F) (v : FlexVal F) (c : Option (FlexVal F)) (t : Option CStr) :
    Decidable (Followed D v c t) :=
  decidable_of_iff
    ((v.type = .undefined → c.isNone ∨ t = some (quote v.pchar)) ∧
      (v.type = .integer → v.pchar = printLong v.integer) ∧
      (v.type = .string → isNumber v.pchar ∨ ∃ d ∈ c, d.type = .string) ∧
      (v.type = .float → v.pchar = realText D v.real) ∧
      (v.type = .float → ∀ d ∈ c, d.type = .float →
        (v.pchar = d.pchar ↔ some (D.print 6 v.real) = t)) ∧ v.type ≠ .array)
    ⟨fun ⟨h₁, h₂, h₃, h₄, h₅, h₆⟩ => ⟨by simpa using h₁, h₂, h₃, h₄, h₅, h₆⟩,
      fun h => ⟨by simpa using h.1, h.2, h.3, h.4, h.5, h.6⟩⟩

lemma serialize_eq (D : Doubles F) (v : FlexVal F) : v.serialize D = match v.type with
    | .undefined => quote v.pchar
    | .integer => printLong v.integer
    | .string => quote v.pchar
    | .float => D.print 6 v.real
    | .array => '[' :: (serializeElems D v.length v.data ++ [']']) := by
  obtain ⟨i, r, p, ty, n, d⟩ := v
  cases ty <;> simp only [serialize, quote]

/-- The kinds of copies, each with the text that was sent. -/
lemma Shows.kinds (hc : Shows D c t) :
    (c.type = .undefined ∧ ∃ p, isNumber p = false ∧ t = quote p) ∨
      (c.type = .integer ∧ c.pchar = t ∧ ∃ x, t = printLong x) ∨
      (c.type = .string ∧ t = quote c.pchar) ∨ (c.type = .float ∧ t = D.print 6 c.real) := by
  obtain ⟨-, hc⟩ := hc
  cases hct : c.type <;> simp_all

/-- Values of different types are serialized as different texts. -/
lemma serialize_ne_of_type_ne (hD : D.Printing) (hc : Shows D c t)
    (hf : Followed D v (some c) (some t)) (hu : v.type = .undefined → c.type = .undefined)
    (hne : v.type ≠ c.type) : v.serialize D ≠ t := by
  rw [serialize_eq]
  cases hvt : v.type with
  | undefined => exact absurd (hvt.trans (hu hvt).symm) hne
  | integer =>
    rcases hc.kinds with ⟨-, p, -, rfl⟩ | ⟨hct, -⟩ | ⟨-, rfl⟩ | ⟨-, rfl⟩
    · exact printLong_ne_quote _ _
    · exact absurd (hvt.trans hct.symm) hne
    · exact printLong_ne_quote _ _
    · exact (hD.ne_printLong _ _).symm
  | string =>
    rcases hc.kinds with ⟨hct, p, hp, rfl⟩ | ⟨-, -, x, rfl⟩ | ⟨hct, -⟩ | ⟨-, rfl⟩
    · -- A text without a type is no number.
      have hnum : isNumber v.pchar := (hf.string hvt).resolve_right (by simp [hct])
      intro heq
      rw [quote_inj.1 heq, hp] at hnum
      cases hnum
    · exact (printLong_ne_quote _ _).symm
    · exact absurd (hvt.trans hct.symm) hne
    · exact (hD.ne_quote _ _).symm
  | float =>
    rcases hc.kinds with ⟨-, p, -, rfl⟩ | ⟨-, -, x, rfl⟩ | ⟨-, rfl⟩ | ⟨hct, -⟩
    · exact hD.ne_quote _ _
    · exact hD.ne_printLong _ _
    · exact hD.ne_quote _ _
    · exact absurd (hvt.trans hct.symm) hne
  | array => exact (hf.array hvt).elim

/-- The comparison with the copy finds exactly the changes of the text that was sent. -/
theorem same_iff_serialize (hD : D.Printing) (hc : Shows D c t)
    (hf : Followed D v (some c) (some t)) (hu : v.type = .undefined → c.type = .undefined) :
    same D v c ↔ v.serialize D = t := by
  by_cases htype : v.type = c.type
  · obtain ⟨-, hc⟩ := hc
    rw [← htype] at hc
    rw [serialize_eq, same, if_neg (not_not.2 htype)]
    cases hvt : v.type with
    | undefined =>
      have ht := (hf.undefined hvt).resolve_left (by simp)
      simpa using (Option.some.inj ht).symm
    | integer =>
      rw [hvt] at hc
      simp [← hf.integer hvt, hc.1]
    | string =>
      rw [hvt] at hc
      simp [hc, quote_inj]
    | float => simpa using hf.float_sent hvt c rfl (htype ▸ hvt)
    | array => exact (hf.array hvt).elim
  · rw [same, if_pos htype]
    exact iff_of_false Bool.false_ne_true (serialize_ne_of_type_ne hD hc hf hu htype)

lemma freeArray_eq (h : v.length = 0) : v.freeArray = some { v with data := [] } := by
  simp [freeArray, h]

lemma copy_isSome (h : c.length = 0) : (copy D v c).isSome := by
  unfold copy
  cases v.type <;> simp [setInt, setFloat, setString, freeArray_eq h]

/-- A copy of a value that is followed compares as equal to it. -/
theorem shows_copy {o : Option (FlexVal F)} {t : Option CStr} (hv : Settled v)
    (hf : Followed D v o t) (hl : (o.getD (create D)).length = 0)
    (hu : v.type = .undefined → (o.getD (create D)).type = .undefined)
    (h : copy D v (o.getD (create D)) = some c) :
    Shows D c (v.serialize D) ∧ same D v c := by
  have hs : v.type = .string → isNumber v.pchar = true ∨ (o.getD (create D)).type = .string := by
    intro hvt
    refine (hf.string hvt).imp_right ?_
    rintro ⟨d, hd, hdt⟩
    rw [Option.mem_def.1 hd]
    exact hdt
  generalize o.getD (create D) = d at hl hu hs h
  rw [serialize_eq]
  unfold copy at h
  unfold Shows same
  cases hvt : v.type with
  | undefined =>
    rw [hvt] at h
    obtain rfl : d = c := Option.some.inj h
    rw [hu hvt]
    exact ⟨⟨hl, v.pchar, hv.undefined hvt, rfl⟩, by simp⟩
  | integer =>
    rw [hvt] at h
    obtain ⟨-, rfl⟩ := setInt_eq_some_iff.1 h
    exact ⟨⟨hl, rfl, _, rfl⟩, by simp [hf.integer hvt]⟩
  | string =>
    rw [hvt] at h
    obtain ⟨-, rfl⟩ := setString_eq_some_iff.1 h
    rw [hv.string hvt, evalFromString]
    split
    · exact ⟨⟨hl, rfl⟩, by simp⟩
    · next hnum =>
      have hd := (hs hvt).resolve_left hnum
      simp [hd, hl]
  | float =>
    rw [hvt] at h
    obtain ⟨-, rfl⟩ := setFloat_eq_some_iff.1 h
    exact ⟨⟨hl, rfl⟩, by simp [hf.float hvt]⟩
  | array => exact (hf.array hvt).elim

end FlexVal

end WebTester.Flexval
