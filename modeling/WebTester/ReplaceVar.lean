import WebTester.RegexpReplace
import WebTester.Substitution

/-!
# Variables in templates

`REPLACE_VAR` writes the value of a variable into a command line or the name of a file. The value
is handed over as a mask, so a backslash or a `$` in it does not stand for itself, and a `$` before
no digit ends the replacing. The buffer of the template is taken to have room for the result.
-/
namespace WebTester.Preg
open CString Substitution

/-! ## The macro -/

/-- The text that a value is written in the place of. -/
def varText (var : CStr) : CStr := '$' :: '{' :: (var ++ ['}'])

/-- The expression of `REPLACE_VAR`, without its slashes. -/
def varPattern (var : CStr) : CStr := ['\\', '$', '\\', '{'] ++ var ++ ['\\', '}']

def varRegexp (var : CStr) : CStr := '/' :: (varPattern var ++ ['/', 'g', 's'])

/-- `REPLACE_VAR`: the template that it leaves. Copying from `NULL` has no defined effect. -/
def replaceVar (pcreCompile : CStr → List Modifier → Option Handle) (str var val : CStr) :
    Option CStr :=
  (pregReplace pcreCompile (varRegexp var) str val).join

/-- The answers of the library for an expression that stands for a text and has no groups: its
leftmost occurrence is reported when the vector has room for a pair. -/
structure Finds (handle : Handle) (pat : CStr) : Prop where
  absent : ∀ s n, ¬ pat <:+: s → (handle s n).result < 0
  found : ∀ s n l, FirstAt pat s l → 1 ≤ n / 3 →
    ∃ m, handle s n = .found m ∧ m.l = l ∧ m.r = l + pat.length ∧ m.groups = []

variable {pcreCompile : CStr → List Modifier → Option Handle} {str var val pat s mask rep : CStr}
variable {re : Regexp} {fuel l : ℕ} {ps : List Piece}

/-- The expression for a variable is compiled, and its occurrences are found. -/
def VarCompiled (pcreCompile : CStr → List Modifier → Option Handle) (var : CStr) : Prop :=
  ∃ handle, pcreCompile (varPattern var) [.dotall] = some handle ∧ Finds handle (varText var)

/-- The value is written in the place of every occurrence, and nothing else is changed. -/
def Literal (pcreCompile : CStr → List Modifier → Option Handle) (str var val : CStr) : Prop :=
  ∃ out, replaceVar pcreCompile str var val = some out ∧ Substituted (varText var) val str out

/-- The value ends the replacing, and what is left behind the first occurrence happens to be the
value and what the rest should become. -/
def Coincides (str var val : CStr) : Prop :=
  Unnumbered val ∧ ∃ l r, FirstAt (varText var) str l ∧
    Substituted (varText var) val (str.drop (l + (varText var).length)) r ∧
    str.drop (l + (varText var).length) = val ++ r

lemma varText_ne_nil (var : CStr) : varText var ≠ [] := List.cons_ne_nil _ _

/-! ## The expression -/

/-- A text between slashes is read up to the first slash in it. -/
lemma parseText_append {a b text : CStr} (ha : '/' ∉ a) :
    parseText true text (a ++ '/' :: b) = some (text ++ a, b) := by
  induction a generalizing text with
  | nil => simp [parseText]
  | cons c a ih =>
    rw [List.mem_cons, not_or] at ha
    rw [List.cons_append, parseText, if_neg (Ne.symm ha.1), ih ha.2]
    simp

lemma isSome_of_mapM {cs : CStr} {ms : List Modifier} (h : cs.mapM getModifierCode = some ms) :
    ∀ c ∈ cs, (getModifierCode c).isSome = true := by
  induction cs generalizing ms with
  | nil => simp
  | cons c cs ih =>
    rw [List.mapM_cons, Option.bind_eq_bind, Option.bind_eq_some_iff] at h
    obtain ⟨m, hm, h⟩ := h
    obtain ⟨ms', hms', -⟩ := Option.bind_eq_some_iff.1 h
    exact List.forall_mem_cons.2 ⟨Option.isSome_iff_exists.2 ⟨m, hm⟩, ih hms'⟩

lemma parseRegexp_var (h : '/' ∉ var) :
    parseRegexp (varRegexp var) = some (varPattern var, [.replaceGlobal, .dotall]) := by
  have hpattern : '/' ∉ varPattern var := by
    simp [varPattern, h]
  rw [parseRegexp, varRegexp, parseText]
  simp only [if_true, Bool.false_eq_true, if_false, ne_eq, not_true]
  rw [parseText_append hpattern]
  rfl

/-- A name with a slash ends the expression, and a backslash is no modifier. -/
lemma parseRegexp_slash (h : '/' ∈ var) : parseRegexp (varRegexp var) = none := by
  obtain ⟨a, b, rfl, ha⟩ := List.eq_append_cons_of_mem h
  have hpattern : '/' ∉ ['\\', '$', '\\', '{'] ++ a := by
    simp [ha]
  have hsplit : varPattern (a ++ '/' :: b) ++ ['/', 'g', 's'] =
      (['\\', '$', '\\', '{'] ++ a) ++ '/' :: (b ++ ['\\', '}', '/', 'g', 's']) := by
    simp [varPattern]
  rw [parseRegexp, varRegexp, parseText]
  simp only [if_true, Bool.false_eq_true, if_false, ne_eq, not_true]
  rw [hsplit, parseText_append hpattern]
  simp only [Option.map_eq_none_iff]
  cases hms : (b ++ ['\\', '}', '/', 'g', 's']).mapM getModifierCode with
  | none => rfl
  | some ms => exact absurd (isSome_of_mapM hms '\\' (by simp)) (by decide)

lemma replaceVar_slash (h : '/' ∈ var) : replaceVar pcreCompile str var val = none := by
  rw [replaceVar, pregReplace, regexpCompile, parseRegexp_slash h]
  rfl

/-- The macro replaces globally by an expression that finds the text of the variable. -/
lemma exists_replaceVar (h : VarCompiled pcreCompile var) (hvar : '/' ∉ var) :
    ∃ re : Regexp, Finds re.handle (varText var) ∧ .replaceGlobal ∈ re.modifiers ∧
      ∀ str val, replaceVar pcreCompile str var val = regexpReplace re str val := by
  obtain ⟨handle, hcompile, hfinds⟩ := h
  refine ⟨⟨handle, [.replaceGlobal, .dotall]⟩, hfinds, List.mem_cons_self, fun str val => ?_⟩
  have hoptions : [Modifier.replaceGlobal, .dotall].filter (· ≠ .replaceGlobal) = [.dotall] := by
    decide
  rw [replaceVar, pregReplace, regexpCompile, parseRegexp_var hvar]
  simp only [hoptions, hcompile, Option.map_some]
  cases regexpReplace ⟨handle, [.replaceGlobal, .dotall]⟩ str val
  all_goals rfl

/-! ## The occurrences -/

lemma Finds.occurrence_absent (h : Finds re.handle pat) (hs : ¬ pat <:+: s) :
    re.occurrence s = none := by
  have hresult := h.absent s (ovectorSize s) hs
  cases hocc : re.occurrence s with
  | none => rfl
  | some m =>
    have hvector : re.handle s (ovectorSize s) = .found m := found_of_occurrence hocc
    rw [hvector, Exec.result] at hresult
    omega

lemma Finds.occurrence_found (h : Finds re.handle pat) (hpat : pat ≠ []) (hl : FirstAt pat s l) :
    ∃ m : Match s, re.occurrence s = some m ∧ m.l = l ∧ m.r = l + pat.length ∧
      m.substrings = [pat] := by
  have hroom : 1 ≤ ovectorSize s / 3 := by
    have hle := hl.add_length_le hpat
    have hpos := List.length_pos_iff.2 hpat
    unfold ovectorSize
    omega
  obtain ⟨m, hm, hml, hmr, hgroups⟩ := h.found s _ l hl hroom
  refine ⟨m, ?_, hml, hmr, ?_⟩
  · unfold Regexp.occurrence regexpGetVector
    rw [hm]
  · rw [Match.substrings, hgroups, hml, hmr, Match.between, Nat.add_sub_cancel_left,
      ← hl.append_drop, List.take_left, List.map_nil]

/-- With a mask that something is made of, the occurrences are replaced by it. -/
lemma substituted_regexpReplace (h : Finds re.handle pat) (hpat : pat ≠ [])
    (hglobal : .replaceGlobal ∈ re.modifiers)
    (hrep : expandMask [pat] (mask.length + 1) [] mask = some (some rep)) :
    ∃ out, regexpReplace re s mask = some out ∧ Substituted pat rep s out := by
  refine replaceFrom_rule (fun s hocc => ?_) (fun s m hocc => ?_) none (Nat.lt_succ_self _)
  · refine .absent fun hs => ?_
    obtain ⟨l, hl⟩ := exists_firstAt hs
    obtain ⟨m, hm, -⟩ := h.occurrence_found hpat hl
    rw [hocc] at hm
    cases hm
  · have hs : pat <:+: s := by
      by_contra hs
      rw [h.occurrence_absent hs] at hocc
      cases hocc
    obtain ⟨l, hl⟩ := exists_firstAt hs
    obtain ⟨m', hm', hml, hmr, hsubs⟩ := h.occurrence_found hpat hl
    obtain rfl := Option.some.inj (hocc.symm.trans hm')
    have hpos := List.length_pos_iff.2 hpat
    refine ⟨rep, hsubs ▸ hrep, ?_⟩
    rw [if_neg (by rw [not_or, not_not]; exact ⟨by omega, hglobal⟩), hml, hmr]
    exact fun out hout => .found hl hout

/-- With a mask in error, the first occurrence is taken out and the rest stays. -/
lemma regexpReplace_invalid (h : Finds re.handle pat) (hpat : pat ≠ []) (hl : FirstAt pat s l)
    (hmask : expandMask [pat] (mask.length + 1) [] mask = some none) :
    regexpReplace re s mask = some (s.take l ++ s.drop (l + pat.length)) := by
  obtain ⟨m, hocc, rfl, hmr, hsubs⟩ := h.occurrence_found hpat hl
  rw [regexpReplace, replaceFrom, regexpReplaceIterator_found hocc, hsubs, hmask, ← hmr]
  simp [getD_appendBuf]

/-! ## Values as masks -/

lemma denotes_of_plain (hescape : '\\' ∉ mask) (hgroup : '$' ∉ mask) :
    Denotes mask (mask.map Piece.char) := by
  induction mask with
  | nil => exact .nil
  | cons c mask ih =>
    rw [List.mem_cons, not_or] at hescape hgroup
    exact .char (Ne.symm hescape.1) (Ne.symm hgroup.1) (ih hescape.2 hgroup.2)

lemma eq_map_of_denotes (hescape : '\\' ∉ mask) (hgroup : '$' ∉ mask) (h : Denotes mask ps) :
    ps = mask.map Piece.char := by
  induction h with
  | nil => rfl
  | escape h ih => simp at hescape
  | group hne hds hend h ih => simp at hgroup
  | char hc hc' h ih =>
    rw [List.mem_cons, not_or] at hescape hgroup
    rw [ih hescape.2 hgroup.2, List.map_cons]

/-- A value without a backslash or a `$` is a mask that stands for itself. -/
lemma expandMask_plain (substrings : List CStr) (hescape : '\\' ∉ mask) (hgroup : '$' ∉ mask) :
    expandMask substrings (mask.length + 1) [] mask = some (some mask) := by
  have hsmall : Small (mask.map Piece.char) := by
    simpa using Small.append_chars mask small_nil
  obtain ⟨r, hr⟩ := exists_expandMask substrings (denotes_of_plain hescape hgroup) hsmall
  rw [hr]
  rcases denotes_of_expandMask hr with ⟨ps, hps, -, rfl⟩ | ⟨-, a, b, ps, rfl, -⟩
  · rw [eq_map_of_denotes hescape hgroup hps, expand_chars, List.nil_append]
  · simp at hgroup

lemma count_brace_unescape (c : Char) (cs : CStr) :
    (unescape c :: cs).count '{' = (c :: cs).count '{' := by
  have hbrace : unescape c = '{' ↔ c = '{' := by
    unfold unescape
    split_ifs with hn hr ht
    · simp [hn]
    · simp [hr]
    · simp [ht]
    · exact Iff.rfl
  simp only [List.count_cons, beq_iff_eq, hbrace]

lemma count_brace_digits {ds : CStr} (hds : ∀ d ∈ ds, d.isDigit = true) : ds.count '{' = 0 :=
  List.count_eq_zero.2 fun hmem => absurd (hds _ hmem) (by decide)

/-- A reference to the whole match brings more braces, other references and escapes make the value
shorter. -/
lemma expand_cases (hpat : '{' ∈ pat) (h : Denotes mask ps) :
    mask.count '{' < (expand [pat] ps).count '{' ∨
      mask.count '{' = (expand [pat] ps).count '{' ∧
        ((expand [pat] ps).length < mask.length ∨
          ('\\' ∉ mask ∧ '$' ∉ mask) ∧ expand [pat] ps = mask) := by
  induction h with
  | nil => simp [expand]
  | @escape c cs ps h ih =>
    rw [expand_char, count_brace_unescape, List.count_cons_of_ne (by decide), List.count_cons,
      List.count_cons, List.length_cons, List.length_cons, List.length_cons]
    rcases ih with hlt | ⟨heq, hlt | ⟨-, hsame⟩⟩
    · exact .inl (by omega)
    · exact .inr ⟨by omega, .inl (by omega)⟩
    · rw [hsame]
      exact .inr ⟨rfl, .inl (by omega)⟩
  | @group ds cs ps hne hds hend h ih =>
    have hpos := List.length_pos_iff.2 hne
    rw [expand_group, List.count_append, List.length_append,
      List.count_cons_of_ne (by decide), List.count_append, count_brace_digits hds,
      List.length_cons, List.length_append]
    cases hk : digitsValue ds with
    | zero =>
      have hmore : 0 < pat.count '{' := List.count_pos_iff.2 hpat
      rw [List.getD_cons_zero]
      rcases ih with hlt | ⟨heq, -⟩
      · exact .inl (by omega)
      · exact .inl (by omega)
    | succ k =>
      rw [List.getD_cons_succ, List.getD_nil, List.count_nil, List.length_nil]
      rcases ih with hlt | ⟨heq, hlt | ⟨-, hsame⟩⟩
      · exact .inl (by omega)
      · exact .inr ⟨by omega, .inl (by omega)⟩
      · rw [hsame]
        exact .inr ⟨by omega, .inl (by omega)⟩
  | @char c cs ps hescape hgroup h ih =>
    rw [expand_char, List.count_cons, List.count_cons, List.length_cons, List.length_cons]
    rcases ih with hlt | ⟨heq, hlt | ⟨hplain, hsame⟩⟩
    · exact .inl (by omega)
    · exact .inr ⟨by omega, .inl (by omega)⟩
    · rw [hsame]
      rw [List.mem_cons, List.mem_cons, not_or, not_or]
      exact .inr ⟨rfl, .inr ⟨⟨⟨Ne.symm hescape, hplain.1⟩, Ne.symm hgroup, hplain.2⟩, rfl⟩⟩

/-- Only a plain value is a mask that stands for itself. -/
lemma plain_of_expand (hpat : '{' ∈ pat) (h : Denotes mask ps) (heq : expand [pat] ps = mask) :
    '\\' ∉ mask ∧ '$' ∉ mask := by
  rcases expand_cases hpat h with hlt | ⟨-, hlt | ⟨hplain, -⟩⟩
  · rw [heq] at hlt
    exact absurd hlt (lt_irrefl _)
  · rw [heq] at hlt
    exact absurd hlt (lt_irrefl _)
  · exact hplain

/-! ## Literal values -/

/-- Only a name with a `$` leaves room for a coincidence. -/
lemma mem_of_coincides (h : Coincides str var val) : '$' ∈ var := by
  obtain ⟨⟨a, b, ps, hval, -⟩, l, r, -, hr, hrest⟩ := h
  obtain ⟨j, -, hcount⟩ := hr.countP_add (Substituted.self (varText_ne_nil var) _)
  have hdollar := hcount (· == '$')
  by_contra hvar
  have hname : var.countP (· == '$') = 0 := by
    rw [List.countP_eq_zero]
    intro c hc heq
    exact hvar (beq_iff_eq.1 heq ▸ hc)
  have hpat : (varText var).countP (· == '$') = 1 := by
    simp [varText, hname]
  have hpos : 0 < val.countP (· == '$') := by
    rw [hval, List.countP_pos_iff]
    exact ⟨'$', by simp, rfl⟩
  rw [hrest, List.countP_append, hpat] at hdollar
  have hle : j * 1 ≤ j * val.countP (· == '$') := Nat.mul_le_mul_left j hpos
  omega

/-- Where the text of the variable occurs, a value is written literally exactly when it is plain,
coincidences apart. -/
lemma literal_iff_of_firstAt (h : VarCompiled pcreCompile var) (hvar : '/' ∉ var)
    (hl : FirstAt (varText var) str l) :
    Literal pcreCompile str var val ↔ '\\' ∉ val ∧ '$' ∉ val ∨ Coincides str var val := by
  obtain ⟨re, hfinds, hglobal, hreplace⟩ := exists_replaceVar h hvar
  have hpat := varText_ne_nil var
  have hbrace : '{' ∈ varText var := by simp [varText]
  unfold Literal
  rw [hreplace]
  constructor
  · rintro ⟨out, hout, hliteral⟩
    cases hexpand : expandMask [varText var] (val.length + 1) [] val with
    | none =>
      obtain ⟨m, hocc, -, -, hsubs⟩ := hfinds.occurrence_found hpat hl
      rw [regexpReplace, replaceFrom, regexpReplaceIterator_found hocc, hsubs, hexpand] at hout
      cases hout
    | some r =>
      rcases denotes_of_expandMask hexpand with ⟨ps, hps, -, rfl⟩ | ⟨rfl, hinvalid⟩
      · obtain ⟨out', hout', hrep⟩ := substituted_regexpReplace (s := str) hfinds hpat hglobal
          hexpand
        obtain rfl := Option.some.inj (hout.symm.trans hout')
        exact .inl (plain_of_expand hbrace hps (hrep.injective hl.isInfix hliteral))
      · rw [regexpReplace_invalid hfinds hpat hl hexpand] at hout
        obtain rfl := Option.some.inj hout
        obtain ⟨r, hr, hrest⟩ := hliteral.exists_of_firstAt hl
        rw [List.append_assoc, List.append_cancel_left_eq] at hr
        exact .inr ⟨hinvalid, l, r, hl, hrest, hr⟩
  · rintro (⟨hescape, hgroup⟩ | ⟨hinvalid, l', r, hl', hr, hrest⟩)
    · exact substituted_regexpReplace hfinds hpat hglobal (expandMask_plain _ hescape hgroup)
    · refine ⟨_, regexpReplace_invalid hfinds hpat hl' (expandMask_unnumbered _ hinvalid), ?_⟩
      rw [hrest, ← List.append_assoc]
      exact .found hl' hr

/-- A value is written literally exactly when the name has no slash and the text of the variable
does not occur, or the value has neither a backslash nor a `$`; or else, for a name with a `$`, by
coincidence. -/
theorem literal_iff (h : VarCompiled pcreCompile var) (str val : CStr) :
    Literal pcreCompile str var val ↔
      '/' ∉ var ∧ (¬ varText var <:+: str ∨ '\\' ∉ val ∧ '$' ∉ val ∨
        '$' ∈ var ∧ Coincides str var val) := by
  by_cases hvar : '/' ∈ var
  · refine iff_of_false ?_ fun hcond => hcond.1 hvar
    rintro ⟨out, hout, -⟩
    rw [replaceVar_slash hvar] at hout
    cases hout
  · rw [and_iff_right hvar]
    by_cases hoccurs : varText var <:+: str
    · obtain ⟨l, hl⟩ := exists_firstAt hoccurs
      rw [literal_iff_of_firstAt h hvar hl, or_iff_right (not_not.2 hoccurs)]
      exact or_congr_right ⟨fun hc => ⟨mem_of_coincides hc, hc⟩, fun hc => hc.2⟩
    · refine iff_of_true ?_ (.inl hoccurs)
      obtain ⟨re, hfinds, -, hreplace⟩ := exists_replaceVar h hvar
      refine ⟨str, ?_, .absent hoccurs⟩
      rw [hreplace]
      exact replaceFrom_unmatched (hfinds.occurrence_absent hoccurs)

/-- A library that finds a text. -/
def textHandle (pat : CStr) : Handle := fun s n =>
  match (List.range (s.length + 1)).find? fun l => pat.isPrefixOf (s.drop l) with
  | none => .noMatch s
  | some l =>
    if h : l + pat.length ≤ s.length ∧ 1 ≤ n / 3 then
      .found ⟨l, l + pat.length, Nat.le_add_right _ _, h.1, []⟩
    else .noRoom s

lemma finds_textHandle (hpat : pat ≠ []) : Finds (textHandle pat) pat where
  absent s n hs := by
    have hnone : (List.range (s.length + 1)).find? (fun l => pat.isPrefixOf (s.drop l)) = none := by
      rw [List.find?_range_eq_none]
      intro l _
      rw [Bool.not_eq_true', Bool.eq_false_iff, ne_eq, List.isPrefixOf_iff_prefix]
      exact fun hl => hs (infix_iff_exists_drop.2 ⟨l, hl⟩)
    simp [textHandle, hnone, Exec.noMatch, Exec.result]
  found s n l hl hn := by
    have hle := hl.add_length_le hpat
    have hsome : (List.range (s.length + 1)).find? (fun l => pat.isPrefixOf (s.drop l)) =
        some l := by
      rw [List.find?_range_eq_some, List.isPrefixOf_iff_prefix, List.mem_range]
      refine ⟨hl.1, by omega, fun j hj => ?_⟩
      rw [Bool.not_eq_true', Bool.eq_false_iff, ne_eq, List.isPrefixOf_iff_prefix]
      exact hl.2 j hj
    exact ⟨_, by rw [textHandle, hsome]; exact dif_pos ⟨hle, hn⟩, rfl, rfl, rfl⟩

/-- A library that compiles the expressions of variables. -/
def textCompile (var text : CStr) (options : List Modifier) : Option Handle :=
  if text = varPattern var ∧ options = [.dotall] then some (textHandle (varText var)) else none

lemma varCompiled_textCompile (var : CStr) : VarCompiled (textCompile var) var :=
  ⟨_, if_pos ⟨rfl, rfl⟩, finds_textHandle (varText_ne_nil var)⟩

/-- The name of a source file is written into the command of a compiler. -/
theorem literal_iff_source :
    Literal (textCompile "source".toList) "gcc $\x7bsource\x7d -o a".toList "source".toList
      "a b.c".toList :=
  (literal_iff (varCompiled_textCompile "source".toList) _ _).2
    ⟨by decide, .inr (.inl (by decide))⟩

/-- A backslash in a file name disappears, and behind a `$` at the end of one the name is missing
and the second place is left as it is. -/
theorem file_names_not_literal :
    ¬ Literal (textCompile "source".toList) "gcc $\x7bsource\x7d".toList "source".toList
        "a\\b.c".toList ∧
      ¬ Literal (textCompile "source".toList) "$\x7bsource\x7d $\x7bsource\x7d".toList
        "source".toList "a$".toList := by
  have hback : replaceVar (textCompile "source".toList) "gcc $\x7bsource\x7d".toList
      "source".toList "a\\b.c".toList = some "gcc ab.c".toList := by decide
  have hdollar : replaceVar (textCompile "source".toList)
      "$\x7bsource\x7d $\x7bsource\x7d".toList "source".toList "a$".toList =
        some " $\x7bsource\x7d".toList := by decide
  have hfour : FirstAt (varText "source".toList) "gcc $\x7bsource\x7d".toList 4 :=
    ⟨by decide, by decide⟩
  have hzero : FirstAt (varText "source".toList) "$\x7bsource\x7d $\x7bsource\x7d".toList 0 :=
    ⟨by decide, by decide⟩
  constructor
  · rintro ⟨out, hout, hliteral⟩
    obtain rfl := Option.some.inj (hback.symm.trans hout)
    obtain ⟨r, hr, -⟩ := hliteral.exists_of_firstAt hfour
    simp at hr
  · rintro ⟨out, hout, hliteral⟩
    obtain rfl := Option.some.inj (hdollar.symm.trans hout)
    obtain ⟨r, hr, -⟩ := hliteral.exists_of_firstAt hzero
    simp at hr

end WebTester.Preg
