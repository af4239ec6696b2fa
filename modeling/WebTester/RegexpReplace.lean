import WebTester.Regexp

/-!
# Replacing by a mask

A mask stands for characters and references to groups. `regexp_replace` puts what the mask stands
for in the place of every match, from left to right, unless the mask ends in a single backslash
or refers to a group by a number that is no `int`.
-/
namespace WebTester.Preg
open CString

/-! ## What a mask stands for -/

inductive Piece
  | char (c : Char)
  | group (k : ℕ)
  deriving DecidableEq

/-- A mask is made of characters, escapes and references. -/
inductive Denotes : CStr → List Piece → Prop
  | nil : Denotes [] []
  | escape {c : Char} {cs : CStr} {ps : List Piece} (h : Denotes cs ps) :
      Denotes ('\\' :: c :: cs) (.char (unescape c) :: ps)
  | group {ds cs : CStr} {ps : List Piece} (hne : ds ≠ []) (hds : ∀ d ∈ ds, d.isDigit = true)
      (hend : ∀ c ∈ cs.head?, c.isDigit = false) (h : Denotes cs ps) :
      Denotes ('$' :: (ds ++ cs)) (.group (digitsValue ds) :: ps)
  | char {c : Char} {cs : CStr} {ps : List Piece} (hescape : c ≠ '\\') (hgroup : c ≠ '$')
      (h : Denotes cs ps) : Denotes (c :: cs) (.char c :: ps)

/-- The groups of a match put in the place of their references. -/
def expand (substrings : List CStr) (ps : List Piece) : CStr :=
  ps.flatMap fun p => match p with
    | .char c => [c]
    | .group k => substrings.getD k []

/-- Every `$` stands before a digit. -/
def Numbered (mask : CStr) : Prop :=
  ∀ i, mask[i]? = some '$' → ∃ d, mask[i + 1]? = some d ∧ d.isDigit = true

/-- The numbers of groups are values of `int`. -/
def Small (ps : List Piece) : Prop := ∀ k, .group k ∈ ps → k < 2 ^ 31

/-- Behind a part that stands for something, a `$` stands before no digit. -/
def Unnumbered (mask : CStr) : Prop :=
  ∃ a b ps, mask = a ++ '$' :: b ∧ (∀ c ∈ b.head?, c.isDigit = false) ∧ Denotes a ps ∧ Small ps

variable {substrings : List CStr} {fuel : ℕ} {mask cs txt out z : CStr} {ps qs : List Piece}
variable {t : Token}

lemma expand_append (substrings : List CStr) (ps qs : List Piece) :
    expand substrings (ps ++ qs) = expand substrings ps ++ expand substrings qs :=
  List.flatMap_append

lemma expand_chars (substrings : List CStr) (w : CStr) :
    expand substrings (w.map Piece.char) = w := by
  induction w with
  | nil => rfl
  | cons c w ih => exact congrArg (c :: ·) ih

lemma expand_char (substrings : List CStr) (c : Char) (ps : List Piece) :
    expand substrings (.char c :: ps) = c :: expand substrings ps := rfl

lemma expand_group (substrings : List CStr) (k : ℕ) (ps : List Piece) :
    expand substrings (.group k :: ps) = substrings.getD k [] ++ expand substrings ps := rfl

@[simp] lemma small_nil : Small [] := by simp [Small]

lemma Small.mono (h : Small ps) (hsub : qs ⊆ ps) : Small qs := fun k hk => h k (hsub hk)

lemma Small.cons_group {k : ℕ} (hk : k < 2 ^ 31) (h : Small ps) : Small (.group k :: ps) := by
  intro j hj
  rcases List.mem_cons.1 hj with hj | hj
  · rw [Piece.group.inj hj]
    exact hk
  · exact h j hj

lemma Small.append_chars (w : CStr) (h : Small ps) : Small (w.map Piece.char ++ ps) := by
  intro k hk
  rcases List.mem_append.1 hk with hk | hk
  · simp at hk
  · exact h k hk

lemma not_unnumbered_of_numbered (h : Numbered mask) : ¬ Unnumbered mask := by
  rintro ⟨a, b, ps, rfl, hb, -, -⟩
  obtain ⟨d, hd, hdigit⟩ := h a.length (by simp)
  rw [List.getElem?_append_right (Nat.le_add_right _ _), Nat.add_sub_cancel_left,
    List.getElem?_cons_succ, ← List.head?_eq_getElem?] at hd
  exact absurd hdigit (Bool.eq_false_iff.1 (hb d hd))

/-- A reference before it changes nothing. -/
lemma Unnumbered.group {ds : CStr} (hne : ds ≠ []) (hds : ∀ d ∈ ds, d.isDigit = true)
    (hend : ∀ c ∈ cs.head?, c.isDigit = false) (hsmall : digitsValue ds < 2 ^ 31)
    (h : Unnumbered cs) : Unnumbered ('$' :: (ds ++ cs)) := by
  obtain ⟨a, b, ps, rfl, hb, hps, hpsmall⟩ := h
  have hend' : ∀ c ∈ a.head?, c.isDigit = false := by
    intro c hc
    exact hend c (by rw [List.head?_append, Option.mem_def.1 hc]; rfl)
  exact ⟨'$' :: (ds ++ a), b, _, by simp, hb, .group hne hds hend' hps, hpsmall.cons_group hsmall⟩

/-- Nor does a text. -/
lemma Unnumbered.text {a w : CStr}
    (hdenotes : ∀ b qs, Denotes b qs → Denotes (a ++ b) (w.map Piece.char ++ qs))
    (h : Unnumbered cs) : Unnumbered (a ++ cs) := by
  obtain ⟨d, b, ps, rfl, hb, hps, hsmall⟩ := h
  exact ⟨a ++ d, b, _, (List.append_assoc _ _ _).symm, hb, hdenotes d ps hps,
    hsmall.append_chars w⟩

/-- Only the places of the mask matter. -/
lemma numbered_of_forall
    (h : ∀ i < mask.length, mask[i]? = some '$' → (mask[i + 1]?).any Char.isDigit = true) :
    Numbered mask := by
  intro i hi
  have hany := h i (List.getElem?_eq_some_iff.1 hi).1 hi
  rwa [Option.any_eq_true] at hany

/-! ## Tokens -/

lemma textToken_char {c : Char} (hescape : c ≠ '\\') (hgroup : c ≠ '$') :
    textToken txt (c :: cs) = textToken (txt ++ [c]) cs := by
  rw [textToken, if_neg hgroup]
  · intro h
    exact absurd h hescape
  · intro d ds h
    exact absurd h hescape

/-- A text ends before a `$` and at the end of the mask. -/
lemma textToken_end (hz : ∀ c ∈ z.head?, c = '$') : textToken txt z = some ⟨txt, false, z⟩ := by
  cases z with
  | nil => rfl
  | cons c z =>
    obtain rfl := hz c rfl
    rw [textToken, if_pos rfl] <;> simp

/-- A text is read up to a `$` or the end of the mask. -/
lemma denotes_of_textToken (h : textToken txt cs = some t) :
    ∃ a w, cs = a ++ t.rest ∧ t.text = txt ++ w ∧ t.named = false ∧
      ∀ b qs, Denotes b qs → Denotes (a ++ b) (w.map Piece.char ++ qs) := by
  fun_induction textToken txt cs with
  | case1 txt =>
    obtain rfl := Option.some.inj h
    exact ⟨[], [], rfl, by simp, rfl, fun b qs hqs => hqs⟩
  | case2 => cases h
  | case3 txt c cs ih =>
    obtain ⟨a, w, hrest, htext, hnamed, hdenotes⟩ := ih h
    exact ⟨'\\' :: c :: a, unescape c :: w, by simp [← hrest], by simp [htext], hnamed,
      fun b qs hqs => .escape (hdenotes b qs hqs)⟩
  | case4 txt cs =>
    obtain rfl := Option.some.inj h
    exact ⟨[], [], rfl, by simp, rfl, fun b qs hqs => hqs⟩
  | case5 txt c cs hback hback' hgroup ih =>
    obtain ⟨a, w, hrest, htext, hnamed, hdenotes⟩ := ih h
    have hescape : c ≠ '\\' := by
      rintro rfl
      cases cs with
      | nil => exact hback rfl rfl
      | cons d ds => exact hback' d ds rfl rfl
    exact ⟨c :: a, c :: w, by simp [← hrest], by simp [htext], hnamed,
      fun b qs hqs => .char hescape hgroup (hdenotes b qs hqs)⟩

/-- A part of a mask that stands for something has a text to be read. -/
lemma textToken_of_denotes (h : Denotes cs ps) (hz : ∀ c ∈ z.head?, c = '$') (txt : CStr) :
    ∃ t b qs, textToken txt (cs ++ z) = some t ∧ t.rest = b ++ z ∧ Denotes b qs ∧ qs ⊆ ps ∧
      ∀ c ∈ t.rest.head?, c = '$' := by
  induction h generalizing txt with
  | nil => exact ⟨_, [], [], textToken_end hz, rfl, .nil, List.Subset.refl _, hz⟩
  | @escape c cs ps h ih =>
    obtain ⟨t, b, qs, ht, hb, hqs, hsub, hhead⟩ := ih (txt ++ [unescape c])
    exact ⟨t, b, qs, ht, hb, hqs, fun p hp => List.mem_cons_of_mem _ (hsub hp), hhead⟩
  | @group ds cs ps hne hds hend h ih =>
    exact ⟨_, '$' :: (ds ++ cs), _, textToken_end (by simp), rfl, .group hne hds hend h,
      List.Subset.refl _, by simp⟩
  | @char c cs ps hescape hgroup h ih =>
    obtain ⟨t, b, qs, ht, hb, hqs, hsub, hhead⟩ := ih (txt ++ [c])
    exact ⟨t, b, qs, (textToken_char hescape hgroup).trans ht, hb, hqs,
      fun p hp => List.mem_cons_of_mem _ (hsub hp), hhead⟩

/-! ## Masks -/

/-- A reference at the beginning of a mask. -/
lemma expandMask_group (cs : CStr) :
    expandMask substrings (fuel + 1) out ('$' :: cs) =
      if cs.takeWhile Char.isDigit = [] then some none
      else if digitsValue (cs.takeWhile Char.isDigit) < 2 ^ 31 then
        expandMask substrings fuel
          (out ++ substrings.getD (digitsValue (cs.takeWhile Char.isDigit)) [])
          (cs.dropWhile Char.isDigit)
      else none := by
  rw [expandMask, replaceParserIterator, if_pos rfl]
  · simp only [Option.bind_eq_bind, Option.bind_some, Token.invalid, Token.append, Bool.true_and,
      if_true, List.isEmpty_iff]
    split_ifs
    all_goals rfl
  · simp

/-- A text at the beginning of a mask. -/
lemma expandMask_text {c : Char} (hc : c ≠ '$') :
    expandMask substrings (fuel + 1) out (c :: cs) = (textToken [] (c :: cs)).bind fun t =>
      if t.invalid then some none
      else (t.append substrings).bind fun a => expandMask substrings fuel (out ++ a) t.rest := by
  rw [expandMask, replaceParserIterator, if_neg hc]
  · rfl
  · simp

lemma not_invalid_of_named (h : t.named = false) : t.invalid = false := by
  simp [Token.invalid, h]

lemma append_of_named (h : t.named = false) : t.append substrings = some t.text := by
  simp [Token.append, h]

/-- What is made of a mask is what it stands for, or there is a `$` before no digit. -/
lemma denotes_of_expandMask {r : Option CStr} (h : expandMask substrings fuel out mask = some r) :
    (∃ ps, Denotes mask ps ∧ Small ps ∧ r = some (out ++ expand substrings ps)) ∨
      r = none ∧ Unnumbered mask := by
  induction fuel generalizing out mask with
  | zero => cases h
  | succ fuel ih =>
    cases mask with
    | nil =>
      obtain rfl := Option.some.inj h
      exact .inl ⟨[], .nil, small_nil, by simp [expand]⟩
    | cons c cs =>
      by_cases hc : c = '$'
      · subst hc
        rw [expandMask_group] at h
        have hnot : ∀ c ∈ (cs.dropWhile Char.isDigit).head?, c.isDigit = false :=
          fun c hc => eq_false_of_head?_dropWhile hc
        have hds : ∀ d ∈ cs.takeWhile Char.isDigit, d.isDigit = true := fun d hd =>
          List.mem_takeWhile_imp hd
        have hcs := List.takeWhile_append_dropWhile (p := Char.isDigit) (l := cs)
        generalize cs.takeWhile Char.isDigit = ds at h hds hcs
        generalize cs.dropWhile Char.isDigit = rest at h hnot hcs
        subst hcs
        split_ifs at h with hne hsmall
        · subst hne
          exact .inr ⟨(Option.some.inj h).symm, [], rest, [], rfl, hnot, .nil, small_nil⟩
        · rcases ih h with ⟨ps, hps, hpsmall, rfl⟩ | ⟨rfl, hrest⟩
          · refine .inl ⟨_, .group hne hds hnot hps, hpsmall.cons_group hsmall, ?_⟩
            rw [expand_group, List.append_assoc]
          · exact .inr ⟨rfl, hrest.group hne hds hnot hsmall⟩
      · rw [expandMask_text hc] at h
        obtain ⟨t, ht, h⟩ := Option.bind_eq_some_iff.1 h
        obtain ⟨d, w, hrest, htext, hnamed, hdenotes⟩ := denotes_of_textToken ht
        rw [not_invalid_of_named hnamed, append_of_named hnamed, htext] at h
        rw [hrest]
        rcases ih h with ⟨ps, hps, hpsmall, rfl⟩ | ⟨rfl, hunnumbered⟩
        · refine .inl ⟨_, hdenotes _ ps hps, hpsmall.append_chars w, ?_⟩
          rw [expand_append, expand_chars]
          simp
        · exact .inr ⟨rfl, hunnumbered.text hdenotes⟩

/-- A part that stands for something, with small numbers, is worked off. -/
lemma expandMask_append (substrings : List CStr) (out : CStr) (h : Denotes cs ps)
    (hsmall : Small ps) (hz : ∀ c ∈ z.head?, c = '$') (hfuel : cs.length < fuel) :
    ∃ rest out', expandMask substrings fuel out (cs ++ z) =
      expandMask substrings (rest + 1) out' z := by
  induction fuel generalizing out cs ps with
  | zero => omega
  | succ fuel ih =>
    cases cs with
    | nil => exact ⟨fuel, out, rfl⟩
    | cons c cs =>
      rw [List.length_cons] at hfuel
      by_cases hc : c = '$'
      · subst hc
        cases h with
        | @group ds cs ps hne hds hend h =>
          have hend' : ∀ c ∈ (cs ++ z).head?, c.isDigit = false := by
            intro c hc
            cases cs with
            | nil => rw [hz c hc]; decide
            | cons d cs => exact hend c hc
          obtain ⟨htake, hdrop⟩ := takeWhile_append_stop hds hend'
          rw [List.cons_append, expandMask_group, List.append_assoc, htake, hdrop, if_neg hne,
            if_pos (hsmall _ List.mem_cons_self)]
          refine ih _ h (hsmall.mono (List.subset_cons_self _ _)) ?_
          rw [List.length_append] at hfuel
          omega
        | char hescape hgroup h => exact absurd rfl hgroup
      · obtain ⟨t, b, qs, ht, hb, hqs, hsub, hhead⟩ := textToken_of_denotes h hz []
        obtain ⟨d, w, hrest, -, hnamed, -⟩ := denotes_of_textToken ht
        rw [List.cons_append] at ht hrest ⊢
        rw [expandMask_text hc, ht, Option.bind_some, not_invalid_of_named hnamed,
          append_of_named hnamed]
        have hshorter : b.length < (c :: cs).length := by
          have hpos : d ≠ [] := by
            rintro rfl
            rw [List.nil_append] at hrest
            rw [← hrest] at hhead
            exact hc (hhead c rfl)
          have hone := List.length_pos_iff.2 hpos
          have hlength := congrArg List.length hrest
          simp only [hb, List.length_cons, List.length_append] at hlength ⊢
          omega
        rw [List.length_cons] at hshorter
        rw [hb]
        exact ih _ hqs (hsmall.mono hsub) (by omega)

/-- A mask that stands for something with small numbers is worked off. -/
lemma exists_expandMask (substrings : List CStr) (h : Denotes mask ps) (hsmall : Small ps) :
    ∃ r, expandMask substrings (mask.length + 1) [] mask = some r := by
  obtain ⟨rest, out', hr⟩ := expandMask_append substrings [] (z := []) h hsmall (by simp)
    (Nat.lt_succ_self _)
  rw [List.append_nil] at hr
  exact ⟨_, hr⟩

/-- A `$` before no digit, behind a part that stands for something, is an error. -/
lemma expandMask_unnumbered (substrings : List CStr) (h : Unnumbered mask) :
    expandMask substrings (mask.length + 1) [] mask = some none := by
  obtain ⟨a, b, ps, rfl, hb, hps, hsmall⟩ := h
  have hfuel : a.length < (a ++ '$' :: b).length + 1 := by
    rw [List.length_append]
    omega
  obtain ⟨rest, out', hr⟩ := expandMask_append substrings [] (z := '$' :: b) hps hsmall (by simp)
    hfuel
  rw [hr, expandMask_group, if_pos]
  cases b with
  | nil => rfl
  | cons c b => exact List.takeWhile_cons_of_neg (Bool.eq_false_iff.1 (hb c rfl))

/-! ## The loop -/

/-- The match that the library reports with the vector of the program, if any. -/
def Regexp.occurrence (re : Regexp) (s : CStr) : Option (Match s) :=
  match regexpGetVector re s (ovectorSize s) with
  | .fail _ _ => none
  | .found m => some m

/-- What a text becomes: the matches are replaced from left to right, only the first without the
modifier `g`, and none behind an empty match at the beginning of what is left. -/
inductive Replaced (re : Regexp) (mask : CStr) : CStr → CStr → Prop
  | unmatched {s : CStr} (h : re.occurrence s = none) : Replaced re mask s s
  | last {s : CStr} {m : Match s} {ps : List Piece} (h : re.occurrence s = some m)
      (hmask : Denotes mask ps) (hend : m.r = 0 ∨ .replaceGlobal ∉ re.modifiers) :
      Replaced re mask s (s.take m.l ++ expand m.substrings ps ++ s.drop m.r)
  | more {s out : CStr} {m : Match s} {ps : List Piece} (h : re.occurrence s = some m)
      (hmask : Denotes mask ps) (hr : m.r ≠ 0) (hglobal : .replaceGlobal ∈ re.modifiers)
      (hrest : Replaced re mask (s.drop m.r) out) :
      Replaced re mask s (s.take m.l ++ expand m.substrings ps ++ out)

/-- `regexp_replace` ends with a text that is what the source becomes. -/
def Replaces (re : Regexp) (s mask : CStr) : Prop :=
  ∃ out, regexpReplace re s mask = some out ∧ Replaced re mask s out

variable {re : Regexp} {s : CStr}

lemma getD_appendBuf (buf dummy : Option CStr) (p : CStr) :
    (appendBuf buf p dummy).getD [] = buf.getD [] ++ p ++ dummy.getD [] := by
  unfold appendBuf
  split
  · rfl
  · rename_i hlength
    have hp : p = [] := List.eq_nil_of_length_eq_zero (by omega)
    have hd : dummy.getD [] = [] := List.eq_nil_of_length_eq_zero (by omega)
    rw [hp, hd, List.append_nil, List.append_nil]

lemma fail_of_occurrence (h : re.occurrence s = none) :
    ∃ code hcode, regexpGetVector re s (ovectorSize s) = .fail code hcode := by
  unfold Regexp.occurrence at h
  cases hvector : regexpGetVector re s (ovectorSize s) with
  | fail code hcode => exact ⟨code, hcode, rfl⟩
  | found m =>
    rw [hvector] at h
    cases h

lemma found_of_occurrence {m : Match s} (h : re.occurrence s = some m) :
    regexpGetVector re s (ovectorSize s) = .found m := by
  unfold Regexp.occurrence at h
  cases hvector : regexpGetVector re s (ovectorSize s) with
  | fail code hcode =>
    rw [hvector] at h
    cases h
  | found m' =>
    rw [hvector] at h
    rw [Option.some.inj h]

/-- Nothing is found: the loop ends. -/
lemma replaceFrom_unmatched {buf : Option CStr} (h : re.occurrence s = none) :
    replaceFrom re mask (fuel + 1) buf s = some (buf.getD [] ++ s) := by
  have hiter : regexpReplaceIterator re s mask = some ⟨none, 0, 0⟩ := by
    obtain ⟨code, hcode, hvector⟩ := fail_of_occurrence h
    rw [regexpReplaceIterator, hvector]
  rw [replaceFrom, hiter]
  simp [getD_appendBuf]

lemma regexpReplaceIterator_found {m : Match s} (h : re.occurrence s = some m) :
    regexpReplaceIterator re s mask =
      (expandMask m.substrings (mask.length + 1) [] mask).map fun out => ⟨out, m.l, m.r⟩ := by
  rw [regexpReplaceIterator, found_of_occurrence h]

/-- Something is found: it is replaced, and the loop ends or goes on behind it. -/
lemma replaceFrom_found {buf : Option CStr} {m : Match s} {rep : CStr}
    (h : re.occurrence s = some m)
    (hmask : expandMask m.substrings (mask.length + 1) [] mask = some (some rep)) :
    replaceFrom re mask (fuel + 1) buf s =
      if m.r = 0 ∨ .replaceGlobal ∉ re.modifiers then
        some (buf.getD [] ++ (s.take m.l ++ rep ++ s.drop m.r))
      else replaceFrom re mask fuel (appendBuf buf (s.take m.l) (some rep)) (s.drop m.r) := by
  rw [replaceFrom, regexpReplaceIterator_found h, hmask]
  simp only [Option.map_some, Option.bind_eq_bind, Option.bind_some, reduceCtorEq, false_or]
  split_ifs
  · simp [getD_appendBuf]
  · rfl

/-- What a mask with small numbers is made into. -/
lemma expandMask_of_denotes (substrings : List CStr) (hmask : Numbered mask)
    (h : Denotes mask ps) (hsmall : Small ps) :
    ∃ qs, Denotes mask qs ∧
      expandMask substrings (mask.length + 1) [] mask = some (some (expand substrings qs)) := by
  obtain ⟨r, hr⟩ := exists_expandMask substrings h hsmall
  rcases denotes_of_expandMask hr with ⟨qs, hqs, -, rfl⟩ | ⟨-, hnot⟩
  · exact ⟨qs, hqs, hr⟩
  · exact absurd hnot (not_unnumbered_of_numbered hmask)

/-- An induction rule for the loop: what holds of a text that nothing is found in, and is carried
over from what is left behind a match, holds of what the loop gives. -/
lemma replaceFrom_rule {Q : CStr → CStr → Prop} (hnone : ∀ s, re.occurrence s = none → Q s s)
    (hfound : ∀ s m, re.occurrence s = some m → ∃ rep,
      expandMask m.substrings (mask.length + 1) [] mask = some (some rep) ∧
      if m.r = 0 ∨ .replaceGlobal ∉ re.modifiers then Q s (s.take m.l ++ rep ++ s.drop m.r)
      else ∀ out, Q (s.drop m.r) out → Q s (s.take m.l ++ rep ++ out))
    (buf : Option CStr) (hfuel : s.length < fuel) :
    ∃ out, replaceFrom re mask fuel buf s = some (buf.getD [] ++ out) ∧ Q s out := by
  induction fuel generalizing s buf with
  | zero => omega
  | succ fuel ih =>
    cases hocc : re.occurrence s with
    | none => exact ⟨s, replaceFrom_unmatched hocc, hnone s hocc⟩
    | some m =>
      obtain ⟨rep, hrep, hstep⟩ := hfound s m hocc
      rw [replaceFrom_found hocc hrep]
      split_ifs at hstep ⊢ with hend
      · exact ⟨_, rfl, hstep⟩
      · rw [not_or] at hend
        have hlength : (s.drop m.r).length < fuel := by
          have hle := m.r_le
          rw [List.length_drop]
          omega
        obtain ⟨out, hout, hQ⟩ := ih (appendBuf buf (s.take m.l) (some rep)) hlength
        refine ⟨_, ?_, hstep out hQ⟩
        rw [hout, getD_appendBuf]
        simp

/-- The loop gives what the rest of the text becomes. -/
lemma replaced_replaceFrom (hmask : Numbered mask) (h : Denotes mask ps) (hsmall : Small ps)
    (buf : Option CStr) (hfuel : s.length < fuel) :
    ∃ out, replaceFrom re mask fuel buf s = some (buf.getD [] ++ out) ∧
      Replaced re mask s out := by
  refine replaceFrom_rule (fun s hocc => .unmatched hocc) (fun s m hocc => ?_) buf hfuel
  obtain ⟨qs, hqs, hexpand⟩ := expandMask_of_denotes m.substrings hmask h hsmall
  refine ⟨_, hexpand, ?_⟩
  split_ifs with hend
  · exact .last hocc hqs hend
  · rw [not_or, not_not] at hend
    exact fun out hout => .more hocc hqs hend.1 hend.2 hout

/-- With a mask whose `$` stand before digits, the result is what the source becomes exactly when
nothing is found or the mask stands for something, with small numbers. -/
theorem replaces_iff (hmask : Numbered mask) :
    Replaces re s mask ↔
      re.occurrence s = none ∨ ∃ ps, Denotes mask ps ∧ ∀ k, .group k ∈ ps → k < 2 ^ 31 := by
  constructor
  · rintro ⟨out, hout, -⟩
    cases hocc : re.occurrence s with
    | none => exact .inl rfl
    | some m =>
      rw [regexpReplace, replaceFrom, regexpReplaceIterator_found hocc] at hout
      obtain ⟨i, hi, -⟩ := Option.bind_eq_some_iff.1 hout
      obtain ⟨r, hr, -⟩ := Option.map_eq_some_iff.1 hi
      rcases denotes_of_expandMask hr with ⟨ps, hps, hsmall, -⟩ | ⟨-, hnot⟩
      · exact .inr ⟨ps, hps, hsmall⟩
      · exact absurd hnot (not_unnumbered_of_numbered hmask)
  · rintro (hocc | ⟨ps, hps, hsmall⟩)
    · exact ⟨s, replaceFrom_unmatched hocc, .unmatched hocc⟩
    · exact replaced_replaceFrom hmask hps hsmall none (Nat.lt_succ_self _)

/-- A library that finds the first `a`. -/
def firstA : Handle := fun s _ =>
  if h : s.idxOf 'a' < s.length then .found ⟨s.idxOf 'a', s.idxOf 'a' + 1, Nat.le_succ _, h, []⟩
  else .noMatch s

/-- Brackets around the match, a backslash, and a group that is not there. -/
def bracketMask : CStr := ['[', '$', '0', '\\', '\\', '$', '7', ']']

/-- Every `a` of `banana` is replaced. -/
theorem replaces_iff_banana :
    Replaces ⟨firstA, [.replaceGlobal]⟩ "banana".toList bracketMask := by
  have hnumbered : Numbered bracketMask := numbered_of_forall (by decide)
  have hdenotes : Denotes bracketMask
      [.char '[', .group 0, .char '\\', .group 7, .char ']'] :=
    .char (by decide) (by decide) (.group (by decide : ['0'] ≠ []) (by simp) (by simp)
      (.escape (.group (by decide : ['7'] ≠ []) (by simp) (by simp)
        (.char (by decide) (by decide) .nil))))
  have hsmall : ∀ k, Piece.group k ∈ [.char '[', .group 0, .char '\\', .group 7, .char ']'] →
      k < 2 ^ 31 := by
    intro k hk
    simp at hk
    omega
  exact (replaces_iff hnumbered).2 (.inr ⟨_, hdenotes, hsmall⟩)

/-- A backslash at the end of the mask, and a number that is no `int`. -/
theorem mask_without_meaning :
    ¬ Replaces ⟨firstA, []⟩ "a".toList "x\\".toList ∧
      ¬ Replaces ⟨firstA, []⟩ "a".toList "$2147483648".toList := by
  have hbackslash : regexpReplace ⟨firstA, []⟩ "a".toList "x\\".toList = none := by decide
  have hnumber : regexpReplace ⟨firstA, []⟩ "a".toList "$2147483648".toList = none := by decide
  constructor
  · rintro ⟨out, hout, -⟩
    rw [hbackslash] at hout
    cases hout
  · rintro ⟨out, hout, -⟩
    rw [hnumber] at hout
    cases hout

end WebTester.Preg
