import Mathlib.Data.List.Infix
import WebTester.HiveBytes

/-!
# The lexemes of a configuration

What stands between and in tokens, told by the text alone: a comment closes where as many of its
brackets are closed as were opened, an array does so with other brackets, a quoted text ends at
the first quote without a backslash, and a word before the first blank, brace or comment.
-/
namespace WebTester.Hive.Bytes
open CString

/-! ## Comments and blanks -/

/-- How often `a` and `b` stand side by side. -/
def pairs (a b : Char) : CStr → ℕ
  | [] => 0
  | c :: rest => (if c = a ∧ rest.head? = some b then 1 else 0) + pairs a b rest

/-- A text at whose end, and not before, `n` open comments are closed. Two brackets may share a
character. -/
structure ClosesComments (n : ℕ) (u : CStr) : Prop where
  closed : pairs '*' '/' u = pairs '/' '*' u + n
  before : ∀ v, v <+: u → v ≠ u → pairs '*' '/' v < pairs '/' '*' v + n

/-- The first token of the data stands at `rest`. -/
inductive AtToken : CStr → CStr → Prop
  | here {data : CStr} : Begins data → AtToken data data
  | blank {c : Char} {data rest : CStr} :
      isBlank c = true → AtToken data rest → AtToken (c :: data) rest
  | line {w data rest : CStr} :
      '\n' ∉ w → AtToken data rest → AtToken ('/' :: '/' :: (w ++ '\n' :: data)) rest
  | comment {u data rest : CStr} :
      ClosesComments 1 u → AtToken data rest → AtToken ('/' :: '*' :: (u ++ data)) rest

lemma AtToken.suffix {data rest : CStr} (h : AtToken data rest) : rest <:+ data := by
  induction h with
  | here => exact List.suffix_rfl
  | @blank c data rest _ _ ih => exact ih.trans (List.suffix_cons c data)
  | @line w data rest _ _ ih =>
    refine ih.trans ⟨'/' :: '/' :: (w ++ ['\n']), ?_⟩
    simp
  | @comment u data rest _ _ ih => exact ih.trans ⟨'/' :: '*' :: u, rfl⟩

/-- What `skip` still has to pass in a gap. -/
def After (gap : Gap) (data rest : CStr) : Prop :=
  match gap with
  | .blank => AtToken data rest
  | .lineComment => ∃ w tail, data = w ++ '\n' :: tail ∧ '\n' ∉ w ∧ AtToken tail rest
  | .star => ∃ c u tail, data = c :: (u ++ tail) ∧ ClosesComments 1 u ∧ AtToken tail rest
  | .comment n => ∃ u tail, data = u ++ tail ∧ ClosesComments n u ∧ AtToken tail rest
  | .slash => ∃ c tail, data = c :: tail ∧ AtToken tail rest

section Comments

variable {n m : ℕ} {c : Char} {u data rest : CStr}

lemma ClosesComments.ne_nil (hn : 0 < n) (h : ClosesComments n u) : u ≠ [] := by
  rintro rfl
  have hclosed := h.closed
  simp only [pairs] at hclosed
  omega

/-- A character changes the number of open comments by the pair that it begins. -/
lemma closesComments_cons (hn : 0 < n) (hm : 0 < m)
    (hpair : ∀ v : CStr, v.head? = u.head? →
      pairs '*' '/' (c :: v) + m + pairs '/' '*' v =
        pairs '/' '*' (c :: v) + n + pairs '*' '/' v) :
    u ≠ [] → (ClosesComments n (c :: u) ↔ ClosesComments m u) := by
  intro hu
  have hlast := hpair u rfl
  constructor
  · intro h
    have hclosed := h.closed
    refine ⟨by omega, fun v hv hne => ?_⟩
    cases v with
    | nil => simpa [pairs] using hm
    | cons d v =>
      have hhead : (d :: v).head? = u.head? := by
        obtain ⟨t, rfl⟩ := hv
        rfl
      have hv' := h.before (c :: d :: v) (List.cons_prefix_cons.2 ⟨rfl, hv⟩)
        (fun heq => hne (List.cons_eq_cons.1 heq).2)
      have hstep := hpair (d :: v) hhead
      omega
  · intro h
    have hclosed := h.closed
    refine ⟨by omega, fun v hv hne => ?_⟩
    rcases List.prefix_cons_iff.1 hv with rfl | ⟨v, rfl, hpre⟩
    · simpa [pairs] using hn
    · cases v with
      | nil => simpa [pairs] using hn
      | cons d v =>
        have hhead : (d :: v).head? = u.head? := by
          obtain ⟨t, rfl⟩ := hpre
          rfl
        have hv' := h.before (d :: v) hpre (fun heq => hne (by rw [heq]))
        have hstep := hpair (d :: v) hhead
        omega

lemma closesComments_singleton (hn : 0 < n) : ¬ClosesComments n [c] := by
  intro h
  have hclosed := h.closed
  simp only [pairs, List.head?_nil, reduceCtorEq, and_false, if_false] at hclosed
  omega

/-- Nothing is closed before the last bracket. -/
lemma closesComments_one_iff (hhead : u.head? = some '/') :
    ClosesComments 1 ('*' :: u) ↔ u = ['/'] := by
  obtain ⟨t, rfl⟩ : ∃ t, u = '/' :: t := by
    cases u with
    | nil => simp at hhead
    | cons d t =>
      obtain rfl := Option.some.inj hhead
      exact ⟨t, rfl⟩
  constructor
  · intro h
    by_contra hne
    have hlt := h.before ['*', '/'] ⟨t, rfl⟩ (fun heq => hne (List.cons_eq_cons.1 heq).2.symm)
    exact absurd hlt (by decide)
  · intro heq
    obtain rfl : t = [] := (List.cons_eq_cons.1 heq).2
    refine ⟨by decide, fun v hv hne => ?_⟩
    rcases List.prefix_cons_iff.1 hv with rfl | ⟨v, rfl, hpre⟩
    · decide
    · rcases List.prefix_cons_iff.1 hpre with rfl | ⟨v, rfl, hnil⟩
      · decide
      · rw [List.prefix_nil.1 hnil] at hne
        exact absurd rfl hne

/-- A comment after one of its characters. -/
lemma after_comment_cons (hn : 0 < n) (hm : 0 < m)
    (hpair : ∀ v : CStr, v.head? = data.head? →
      pairs '*' '/' (c :: v) + m + pairs '/' '*' v =
        pairs '/' '*' (c :: v) + n + pairs '*' '/' v) :
    After (.comment n) (c :: data) rest ↔ After (.comment m) data rest := by
  have hhead : ∀ u tail : CStr, u ≠ [] → u.head? = (u ++ tail).head? := by
    intro u tail hu
    obtain ⟨d, u, rfl⟩ := List.exists_cons_of_ne_nil hu
    rfl
  constructor
  · rintro ⟨u, tail, heq, hu, htail⟩
    obtain ⟨d, u, rfl⟩ := List.exists_cons_of_ne_nil (hu.ne_nil hn)
    rw [List.cons_append] at heq
    obtain ⟨rfl, rfl⟩ := List.cons_eq_cons.1 heq
    have hne : u ≠ [] := by
      rintro rfl
      exact closesComments_singleton hn hu
    refine ⟨u, tail, rfl, (closesComments_cons hn hm (fun v hv => hpair v ?_) hne).1 hu, htail⟩
    rw [hv, hhead u tail hne]
  · rintro ⟨u, tail, rfl, hu, htail⟩
    have hne := hu.ne_nil hm
    refine ⟨c :: u, tail, rfl, (closesComments_cons hn hm (fun v hv => hpair v ?_) hne).2 hu, htail⟩
    rw [hv, hhead u tail hne]

end Comments

/-- The gap that the main loop is in has a bracket to close. -/
def Gap.Open : Gap → Prop
  | .comment n => 0 < n
  | _ => True

section Gaps

variable {n : ℕ} {c : Char} {data rest : CStr}

lemma atToken_blank (hc : isBlank c = true) : AtToken (c :: data) rest ↔ AtToken data rest := by
  refine ⟨fun h => ?_, .blank hc⟩
  cases h with
  | here hbegins =>
    obtain ⟨d, tail, heq, hd, -⟩ := hbegins
    obtain ⟨rfl, -⟩ := List.cons_eq_cons.1 heq
    rw [hc] at hd
    cases hd
  | blank _ h => exact h
  | line | comment => exact absurd hc (by decide)

lemma atToken_begins (h : Begins data) : AtToken data rest ↔ rest = data := by
  obtain ⟨c, tail, rfl, hblank, hcomment⟩ := id h
  constructor
  · intro htoken
    cases htoken with
    | here => rfl
    | blank hc =>
      rw [hblank] at hc
      cases hc
    | line => exact absurd ⟨rfl, .inr rfl⟩ hcomment
    | comment => exact absurd ⟨rfl, .inl rfl⟩ hcomment
  · rintro rfl
    exact .here h

lemma atToken_line (hhead : data.head? = some '/') :
    AtToken ('/' :: data) rest ↔ After .lineComment data rest := by
  constructor
  · intro h
    cases h with
    | here hbegins =>
      obtain ⟨d, tail, heq, -, hcomment⟩ := hbegins
      obtain ⟨rfl, rfl⟩ := List.cons_eq_cons.1 heq
      exact absurd ⟨rfl, .inr hhead⟩ hcomment
    | blank hc => exact absurd hc (by decide)
    | @line w tail rest hw h => exact ⟨'/' :: w, tail, rfl, by simpa using hw, h⟩
    | comment => exact absurd hhead (by simp)
  · rintro ⟨w, tail, rfl, hw, h⟩
    cases w with
    | nil => exact absurd hhead (by simp)
    | cons d w =>
      obtain rfl : d = '/' := Option.some.inj hhead
      exact .line (fun hmem => hw (List.mem_cons_of_mem _ hmem)) h

lemma atToken_comment (hhead : data.head? = some '*') :
    AtToken ('/' :: data) rest ↔ After .star data rest := by
  constructor
  · intro h
    cases h with
    | here hbegins =>
      obtain ⟨d, tail, heq, -, hcomment⟩ := hbegins
      obtain ⟨rfl, rfl⟩ := List.cons_eq_cons.1 heq
      exact absurd ⟨rfl, .inl hhead⟩ hcomment
    | blank hc => exact absurd hc (by decide)
    | line => exact absurd hhead (by simp)
    | @comment u tail rest hu h => exact ⟨'*', u, tail, rfl, hu, h⟩
  · rintro ⟨d, u, tail, rfl, hu, h⟩
    obtain rfl : d = '*' := Option.some.inj hhead
    exact .comment hu h

lemma after_line_end : After .lineComment ('\n' :: data) rest ↔ AtToken data rest := by
  constructor
  · rintro ⟨w, tail, heq, hw, h⟩
    cases w with
    | nil =>
      obtain ⟨-, rfl⟩ := List.cons_eq_cons.1 heq
      exact h
    | cons d w =>
      obtain ⟨rfl, -⟩ := List.cons_eq_cons.1 heq
      exact absurd List.mem_cons_self hw
  · intro h
    exact ⟨[], data, rfl, List.not_mem_nil, h⟩

lemma after_line_cons (hc : c ≠ '\n') :
    After .lineComment (c :: data) rest ↔ After .lineComment data rest := by
  constructor
  · rintro ⟨w, tail, heq, hw, h⟩
    cases w with
    | nil => exact absurd (List.cons_eq_cons.1 heq).1 hc
    | cons d w =>
      exact ⟨w, tail, (List.cons_eq_cons.1 heq).2, fun hmem => hw (List.mem_cons_of_mem d hmem), h⟩
  · rintro ⟨w, tail, rfl, hw, h⟩
    exact ⟨c :: w, tail, rfl, by simpa [hc.symm] using hw, h⟩

lemma after_star_cons : After .star (c :: data) rest ↔ After (.comment 1) data rest := by
  constructor
  · rintro ⟨d, u, tail, heq, hu, h⟩
    exact ⟨u, tail, (List.cons_eq_cons.1 heq).2, hu, h⟩
  · rintro ⟨u, tail, rfl, hu, h⟩
    exact ⟨c, u, tail, rfl, hu, h⟩

lemma after_slash_cons : After .slash (c :: data) rest ↔ AtToken data rest := by
  constructor
  · rintro ⟨d, tail, heq, h⟩
    obtain ⟨-, rfl⟩ := List.cons_eq_cons.1 heq
    exact h
  · intro h
    exact ⟨c, data, rfl, h⟩

/-- The last bracket of a comment. -/
lemma after_comment_close (hhead : data.head? = some '/') :
    After (.comment 1) ('*' :: data) rest ↔ After .slash data rest := by
  obtain ⟨tail, rfl⟩ : ∃ tail, data = '/' :: tail := by
    cases data with
    | nil => simp at hhead
    | cons d tail =>
      obtain rfl := Option.some.inj hhead
      exact ⟨tail, rfl⟩
  rw [after_slash_cons]
  constructor
  · rintro ⟨u, tail', heq, hu, h⟩
    obtain ⟨d, u, rfl⟩ := List.exists_cons_of_ne_nil (hu.ne_nil Nat.one_pos)
    rw [List.cons_append] at heq
    obtain ⟨rfl, hslash⟩ := List.cons_eq_cons.1 heq
    have hne : u ≠ [] := by
      rintro rfl
      exact closesComments_singleton Nat.one_pos hu
    obtain ⟨e, u, rfl⟩ := List.exists_cons_of_ne_nil hne
    obtain ⟨rfl, htail⟩ := List.cons_eq_cons.1 hslash
    obtain rfl : u = [] := (List.cons_eq_cons.1 ((closesComments_one_iff rfl).1 hu)).2
    rw [htail]
    exact h
  · intro h
    exact ⟨['*', '/'], tail, rfl, (closesComments_one_iff rfl).2 rfl, h⟩

lemma after_comment_open (hn : 0 < n) (hhead : data.head? = some '*') :
    After (.comment n) ('/' :: data) rest ↔ After (.comment (n + 1)) data rest := by
  refine after_comment_cons hn (Nat.succ_pos n) fun v hv => ?_
  simp [pairs, hv, hhead]
  omega

lemma after_comment_back (hn : 1 < n) (hhead : data.head? = some '/') :
    After (.comment n) ('*' :: data) rest ↔ After (.comment (n - 1)) data rest := by
  refine after_comment_cons (by omega) (by omega) fun v hv => ?_
  simp [pairs, hv, hhead]
  omega

lemma after_comment_inside (hn : 0 < n) (hopen : ¬(c = '/' ∧ data.head? = some '*'))
    (hclose : ¬(c = '*' ∧ data.head? = some '/')) :
    After (.comment n) (c :: data) rest ↔ After (.comment n) data rest := by
  refine after_comment_cons hn hn fun v hv => ?_
  simp [pairs, hv, hopen, hclose]
  omega

lemma not_after_nil {gap : Gap} (hgap : Gap.Open gap) (rest : CStr) : ¬After gap [] rest := by
  cases gap with
  | blank =>
    intro h
    cases h with
    | here hbegins =>
      obtain ⟨c, t, heq, -⟩ := hbegins
      cases heq
  | lineComment =>
    rintro ⟨w, tail, heq, -⟩
    simp at heq
  | star =>
    rintro ⟨c, u, tail, heq, -⟩
    cases heq
  | comment n =>
    rintro ⟨u, tail, heq, hu, -⟩
    obtain ⟨rfl, -⟩ := List.append_eq_nil_iff.1 heq.symm
    exact hu.ne_nil hgap rfl
  | slash =>
    rintro ⟨c, tail, heq, -⟩
    cases heq

end Gaps

/-- `skip` finds the first token. -/
lemma skip_iff {gap : Gap} (hgap : Gap.Open gap) {data : CStr} (hnul : nul ∉ data) (rest : CStr) :
    (skip gap data).2 = some rest ↔ After gap data rest := by
  induction data generalizing gap with
  | nil => exact iff_of_false (by simp [skip]) (not_after_nil hgap rest)
  | cons c data ih =>
    obtain ⟨hc, hdata⟩ : c ≠ nul ∧ nul ∉ data := by simpa [eq_comm] using hnul
    rw [skip.eq_def]
    dsimp only
    rw [if_neg hc]
    cases gap with
    | blank =>
      dsimp only
      split_ifs with hblank hline hstar
      · exact (@ih .blank trivial hdata).trans (atToken_blank hblank).symm
      · obtain ⟨rfl, hhead⟩ := hline
        exact (@ih .lineComment trivial hdata).trans (atToken_line hhead).symm
      · obtain ⟨rfl, hhead⟩ := hstar
        exact (@ih .star trivial hdata).trans (atToken_comment hhead).symm
      · have hbegins : Begins (c :: data) := by
          refine ⟨c, data, rfl, by simpa using hblank, ?_⟩
          rintro ⟨hslash, h | h⟩
          · exact hstar ⟨hslash, h⟩
          · exact hline ⟨hslash, h⟩
        rw [After, atToken_begins hbegins, Option.some.injEq]
        exact eq_comm
    | lineComment =>
      dsimp only
      split_ifs with hend
      · subst hend
        exact (@ih .blank trivial hdata).trans after_line_end.symm
      · exact (@ih .lineComment trivial hdata).trans (after_line_cons hend).symm
    | star => exact (@ih (.comment 1) Nat.one_pos hdata).trans after_star_cons.symm
    | comment n =>
      have hn : 0 < n := hgap
      dsimp only
      split_ifs with hopen hclose hone
      · obtain ⟨rfl, hhead⟩ := hopen
        exact (@ih (.comment (n + 1)) (Nat.succ_pos n) hdata).trans
          (after_comment_open hn hhead).symm
      · obtain ⟨rfl, hhead⟩ := hclose
        subst hone
        exact (@ih .slash trivial hdata).trans (after_comment_close hhead).symm
      · obtain ⟨rfl, hhead⟩ := hclose
        have hmore : 1 < n := by omega
        exact (@ih (.comment (n - 1)) (Nat.sub_pos_of_lt hmore) hdata).trans
          (after_comment_back hmore hhead).symm
      · exact (@ih (.comment n) hn hdata).trans (after_comment_inside hn hopen hclose).symm
    | slash => exact (@ih .blank trivial hdata).trans after_slash_cons.symm

/-! ## Arrays -/

/-- A text before the bracket that closes `n` open arrays. -/
structure Enclosed (n : ℕ) (w : CStr) : Prop where
  closed : w.count ']' + 1 = w.count '[' + n
  before : ∀ v, v <+: w → v.count ']' < v.count '[' + n

section Arrays

variable {n : ℕ} {c : Char} {w data after : CStr}

lemma enclosed_nil : Enclosed n [] ↔ n = 1 := by
  constructor
  · intro h
    have hclosed := h.closed
    simp only [List.count_nil] at hclosed
    omega
  · rintro rfl
    refine ⟨rfl, fun v hv => ?_⟩
    rw [List.prefix_nil.1 hv]
    decide

lemma bracket_eq_zero_iff (hn : 0 < n) : bracket c n = 0 ↔ c = ']' ∧ n = 1 := by
  unfold bracket
  split_ifs with hopen hclose
  · subst hopen
    simp
  · subst hclose
    simp only [true_and]
    omega
  · simp only [hclose, false_and, iff_false]
    omega

/-- A character changes what is open by its bracket. -/
lemma count_bracket (hpos : bracket c n ≠ 0) (v : CStr) :
    (c :: v).count ']' + v.count '[' + bracket c n = (c :: v).count '[' + v.count ']' + n := by
  unfold bracket at hpos ⊢
  split_ifs at hpos ⊢ with hopen hclose
  · subst hopen
    rw [List.count_cons_self, List.count_cons_of_ne (by decide)]
    omega
  · subst hclose
    rw [List.count_cons_self, List.count_cons_of_ne (by decide)]
    omega
  · rw [List.count_cons_of_ne hopen, List.count_cons_of_ne hclose]
    omega

lemma enclosed_cons (hn : 0 < n) :
    Enclosed n (c :: w) ↔ bracket c n ≠ 0 ∧ Enclosed (bracket c n) w := by
  constructor
  · intro h
    have hpos : bracket c n ≠ 0 := by
      rw [Ne, bracket_eq_zero_iff hn]
      rintro ⟨rfl, rfl⟩
      have hlt := h.before [']'] (List.cons_prefix_cons.2 ⟨rfl, List.nil_prefix⟩)
      exact absurd hlt (by decide)
    have hclosed := h.closed
    have hlast := count_bracket hpos w
    refine ⟨hpos, by omega, fun v hv => ?_⟩
    have hlt := h.before (c :: v) (List.cons_prefix_cons.2 ⟨rfl, hv⟩)
    have hstep := count_bracket hpos v
    omega
  · rintro ⟨hpos, h⟩
    have hclosed := h.closed
    have hlast := count_bracket hpos w
    refine ⟨by omega, fun v hv => ?_⟩
    rcases List.prefix_cons_iff.1 hv with rfl | ⟨v, rfl, hpre⟩
    · simpa using hn
    · have hlt := h.before v hpre
      have hstep := count_bracket hpos v
      omega

/-- An array is closed by the bracket behind an enclosed text. -/
lemma takeArray_iff (hn : 0 < n) (hnul : nul ∉ data) :
    ((takeArray n data).closed = true ∧ (takeArray n data).text = w ∧
        (takeArray n data).rest = after) ↔
      data = w ++ ']' :: after ∧ Enclosed n w := by
  induction data generalizing n w with
  | nil => simp [takeArray]
  | cons c data ih =>
    obtain ⟨hc, hdata⟩ : c ≠ nul ∧ nul ∉ data := by simpa [eq_comm] using hnul
    rw [takeArray, if_neg hc]
    by_cases hzero : bracket c n = 0
    · rw [if_pos hzero]
      obtain ⟨rfl, rfl⟩ := (bracket_eq_zero_iff hn).1 hzero
      constructor
      · rintro ⟨-, rfl, rfl⟩
        exact ⟨rfl, enclosed_nil.2 rfl⟩
      · rintro ⟨heq, hw⟩
        cases w with
        | nil => exact ⟨rfl, rfl, (List.cons_eq_cons.1 heq).2⟩
        | cons d w =>
          obtain ⟨rfl, -⟩ := List.cons_eq_cons.1 heq
          exact absurd hzero ((enclosed_cons hn).1 hw).1
    · rw [if_neg hzero]
      dsimp only
      constructor
      · rintro ⟨hclosed, rfl, hrest⟩
        obtain ⟨heq, hw⟩ := (ih (Nat.pos_of_ne_zero hzero) hdata).1 ⟨hclosed, rfl, hrest⟩
        exact ⟨by rw [List.cons_append, ← heq], (enclosed_cons hn).2 ⟨hzero, hw⟩⟩
      · rintro ⟨heq, hw⟩
        cases w with
        | nil =>
          obtain ⟨rfl, -⟩ := List.cons_eq_cons.1 heq
          exact absurd ((bracket_eq_zero_iff hn).2 ⟨rfl, enclosed_nil.1 hw⟩) hzero
        | cons d w =>
          rw [List.cons_append] at heq
          obtain ⟨rfl, htail⟩ := List.cons_eq_cons.1 heq
          obtain ⟨hclosed, htext, hrest⟩ := (ih (Nat.pos_of_ne_zero hzero) hdata).2
            ⟨htail, ((enclosed_cons hn).1 hw).2⟩
          exact ⟨hclosed, by rw [htext], hrest⟩

lemma takeArray_unclosed (hnul : nul ∉ data) (h : (takeArray n data).closed = false) :
    (takeArray n data).text = data ∧ (takeArray n data).rest = [] := by
  induction data generalizing n with
  | nil => exact ⟨rfl, rfl⟩
  | cons c data ih =>
    obtain ⟨hc, hdata⟩ : c ≠ nul ∧ nul ∉ data := by simpa [eq_comm] using hnul
    rw [takeArray, if_neg hc] at h ⊢
    split_ifs at h ⊢
    dsimp only at h ⊢
    obtain ⟨htext, hrest⟩ := ih hdata h
    exact ⟨by rw [htext], hrest⟩

end Arrays

/-! ## Quoted texts and words -/

/-- A text without an open end between quotes, and how many characters it stands for. -/
inductive Quoted : CStr → ℕ → Prop
  | nil : Quoted [] 0
  | plain {c : Char} {w : CStr} {n : ℕ} :
      c ≠ '"' → c ≠ '\\' → Quoted w n → Quoted (c :: w) (n + 1)
  | escaped {c : Char} {w : CStr} {n : ℕ} : Quoted w n → Quoted ('\\' :: c :: w) (n + 1)

/-- A word ends here. -/
def Stops : CStr → Prop
  | [] => True
  | c :: rest =>
    isBlank c ∨ c = '{' ∨ c = '}' ∨ c = '/' ∧ (rest.head? = some '*' ∨ rest.head? = some '/')

/-- A text that is a word before `after`, and ends there. -/
structure IsWord (w after : CStr) : Prop where
  stops : Stops after
  inside : ∀ u, u <:+ w → u ≠ [] → ¬Stops (u ++ after)

section Texts

variable {c : Char} {w data after : CStr} {n : ℕ}

lemma takeQuoted_iff (hnul : nul ∉ data) :
    (∃ text lines, takeQuoted data = some (text, lines, some after) ∧ text.length = n) ↔
      ∃ w, data = w ++ '"' :: after ∧ Quoted w n := by
  constructor
  · rintro ⟨text, lines, h, rfl⟩
    fun_induction takeQuoted data generalizing text lines with
    | case1 => simp at h
    | case2 c data hend =>
      obtain ⟨hc, -⟩ : c ≠ nul ∧ nul ∉ data := by simpa [eq_comm] using hnul
      obtain rfl : c = '"' := hend.resolve_right hc
      simp only [Option.some.injEq, Prod.mk.injEq] at h
      obtain ⟨rfl, -, rfl⟩ := h
      exact ⟨[], rfl, .nil⟩
    | case3 => simp at h
    | case4 d data hend ih =>
      obtain ⟨-, -, hdata⟩ : '\\' ≠ nul ∧ d ≠ nul ∧ nul ∉ data := by simpa [eq_comm] using hnul
      obtain ⟨⟨text', lines', rest⟩, ht, heq⟩ := Option.map_eq_some_iff.1 h
      obtain ⟨rfl, rfl, rfl⟩ : unescape d :: text' = text ∧ lines' = lines ∧ rest = some after := by
        simpa using heq
      obtain ⟨w, rfl, hw⟩ := ih hdata _ _ ht
      exact ⟨'\\' :: d :: w, rfl, .escaped hw⟩
    | case5 c data hend hslash ih =>
      obtain ⟨hc, hdata⟩ : c ≠ nul ∧ nul ∉ data := by simpa [eq_comm] using hnul
      obtain ⟨⟨text', lines', rest⟩, ht, heq⟩ := Option.map_eq_some_iff.1 h
      obtain ⟨rfl, -, rfl⟩ : c :: text' = text ∧ newline c + lines' = lines ∧
          rest = some after := by simpa using heq
      obtain ⟨w, rfl, hw⟩ := ih hdata _ _ ht
      exact ⟨c :: w, rfl, .plain (fun heq => hend (.inl heq)) hslash hw⟩
  · rintro ⟨w, rfl, hw⟩
    induction hw with
    | nil =>
      refine ⟨[], 0, ?_, rfl⟩
      rw [List.nil_append, takeQuoted.eq_def]
      simp
    | @plain c w n hquote hslash hw ih =>
      obtain ⟨hc, hdata⟩ : c ≠ nul ∧ nul ∉ w ++ '"' :: after := by simpa [eq_comm] using hnul
      obtain ⟨text, lines, htake, rfl⟩ := ih hdata
      refine ⟨c :: text, newline c + lines, ?_, rfl⟩
      rw [List.cons_append, takeQuoted.eq_def]
      simp only [hquote, hc, hslash, or_self, if_false, htake, Option.map_some]
    | @escaped c w n hw ih =>
      obtain ⟨-, -, hdata⟩ : '\\' ≠ nul ∧ c ≠ nul ∧ nul ∉ w ++ '"' :: after := by
        simpa [eq_comm] using hnul
      obtain ⟨text, lines, htake, rfl⟩ := ih hdata
      refine ⟨unescape c :: text, lines, ?_, rfl⟩
      have hslash : ¬('\\' = '"' ∨ '\\' = nul) := by decide
      rw [List.cons_append, List.cons_append, takeQuoted.eq_def]
      simp only [hslash, if_false, if_true, htake, Option.map_some]

lemma takeWord_cons (h : ¬Stops (c :: data)) :
    takeWord (c :: data) = (c :: (takeWord data).1, (takeWord data).2) := by
  rw [Stops] at h
  rw [takeWord, if_neg h]

lemma takeWord_stops (h : Stops data) : takeWord data = ([], data) := by
  cases data with
  | nil => rfl
  | cons c data =>
    rw [Stops] at h
    rw [takeWord, if_pos h]

lemma isWord_nil : IsWord [] after ↔ Stops after := by
  refine ⟨fun h => h.stops, fun h => ⟨h, fun u hu hne => ?_⟩⟩
  exact absurd (List.suffix_nil.1 hu) hne

lemma isWord_cons : IsWord (c :: w) after ↔ ¬Stops (c :: (w ++ after)) ∧ IsWord w after := by
  constructor
  · intro h
    exact ⟨h.inside _ List.suffix_rfl (List.cons_ne_nil c w), h.stops,
      fun u hu hne => h.inside u (hu.trans (List.suffix_cons c w)) hne⟩
  · rintro ⟨hstart, h⟩
    refine ⟨h.stops, fun u hu hne => ?_⟩
    rcases List.suffix_cons_iff.1 hu with rfl | hu
    · exact hstart
    · exact h.inside u hu hne

lemma takeWord_iff : takeWord data = (w, after) ↔ data = w ++ after ∧ IsWord w after := by
  induction data generalizing w with
  | nil =>
    have hstops : Stops [] := trivial
    rw [takeWord_stops hstops, Prod.mk.injEq, eq_comm, List.nil_eq_append_iff]
    constructor
    · rintro ⟨rfl, rfl⟩
      exact ⟨⟨rfl, rfl⟩, isWord_nil.2 hstops⟩
    · rintro ⟨⟨rfl, rfl⟩, -⟩
      exact ⟨rfl, rfl⟩
  | cons c data ih =>
    by_cases hstops : Stops (c :: data)
    · rw [takeWord_stops hstops, Prod.mk.injEq]
      constructor
      · rintro ⟨rfl, rfl⟩
        exact ⟨rfl, isWord_nil.2 hstops⟩
      · rintro ⟨heq, hw⟩
        cases w with
        | nil => exact ⟨rfl, heq⟩
        | cons d w =>
          rw [heq] at hstops
          exact absurd hstops (isWord_cons.1 hw).1
    · rw [takeWord_cons hstops]
      constructor
      · intro h
        obtain ⟨rfl, rfl⟩ := Prod.mk.inj h
        obtain ⟨heq, hw⟩ := ih.1 rfl
        rw [heq] at hstops
        exact ⟨by rw [List.cons_append, ← heq], isWord_cons.2 ⟨hstops, hw⟩⟩
      · rintro ⟨heq, hw⟩
        cases w with
        | nil =>
          rw [heq] at hstops
          exact absurd (isWord_nil.1 hw) hstops
        | cons d w =>
          rw [List.cons_append] at heq
          obtain ⟨rfl, htail⟩ := List.cons_eq_cons.1 heq
          rw [ih.2 ⟨htail, (isWord_cons.1 hw).2⟩]

end Texts

/-! ## Lexemes -/

/-- The data begin with a token that has an end, and the tokenizer writes this many bytes. An array
that is not closed has one, for the end of the data is noticed in it. -/
inductive Lexeme : CStr → ℕ → Prop
  | array {w : CStr} (after : CStr) :
      Enclosed 1 w → Lexeme ('[' :: (w ++ ']' :: after)) (w.length + 1)
  | unended {w : CStr} :
      (∀ v after, w = v ++ ']' :: after → ¬Enclosed 1 v) → Lexeme ('[' :: w) (max 1 w.length)
  | quoted {w : CStr} {n : ℕ} (after : CStr) :
      Quoted w n → Lexeme ('"' :: (w ++ '"' :: after)) (n + 1)
  | brace {c : Char} (after : CStr) : c = '{' ∨ c = '}' → Lexeme (c :: after) 2
  | word {w after : CStr} :
      IsWord w after → (∀ c ∈ (w ++ after).head?, c ≠ '[' ∧ c ≠ '"') → w ≠ [] →
      Lexeme (w ++ after) (w.length + 1)

end WebTester.Hive.Bytes
