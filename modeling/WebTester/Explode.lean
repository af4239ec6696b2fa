import WebTester.HiveScan
import WebTester.TestsTable

/-!
# Splitting by a separator

`explode` compares the separator at every offset of the text, and after a match goes on with the
next character, which still belongs to the separator when that is longer than one. Before the last
piece is ended, the buffer with all that earlier pieces left in it is compared with the separator.
-/
namespace WebTester.Explode
open CString Hive

/-- What stands at an offset of the rest of the text; `behind` are the bytes behind its NUL. -/
def byteAt (behind : ℕ → Char) (rest : CStr) (i : ℕ) : Char :=
  (rest ++ [nul]).getD i (behind (i - (rest.length + 1)))

/-- The inner loop of `explode`, from offset `j` on: does the text differ from the separator? -/
def differs (behind : ℕ → Char) (rest : CStr) : ℕ → CStr → Bool
  | _, [] => false
  | j, c :: separator => byteAt behind rest j ≠ c || differs behind rest (j + 1) separator

/-- Is the string in the buffer, from offset `j` on, this one? -/
def sameString (token : ℕ → Char) : ℕ → CStr → Bool
  | j, [] => token j = nul
  | j, c :: s => token j = c && sameString token (j + 1) s

/-- `token`, `len` and the array that `strarr_append` builds. -/
structure Splitting where
  token : ℕ → Char
  len : ℕ
  arr : List (Option CStr)

namespace Splitting

/-- Writes a character to the buffer of 4096 bytes. -/
def put (st : Splitting) (c : Char) : Option Splitting :=
  if st.len < 4096 then
    some { st with token := Function.update st.token st.len c, len := st.len + 1 }
  else none

/-- `strarr_append` of the buffer, in which a NUL was just written. -/
def append (st : Splitting) : Splitting :=
  { st with
    len := 0
    arr := st.arr ++ [some (((List.range st.len).map st.token).takeWhile (· ≠ nul))] }

/-- One iteration of `explode`, where the rest of the text begins with `c`. -/
def step (behind : ℕ → Char) (separator : CStr) (c : Char) (rest : CStr) (st : Splitting) :
    Option Splitting :=
  if differs behind (c :: rest) 0 separator then st.put c
  else (st.put nul).map append

/-- The loop of `explode`. -/
def run (behind : ℕ → Char) (separator : CStr) : CStr → Splitting → Option Splitting
  | [], st => some st
  | c :: rest, st => (st.step behind separator c rest).bind (run behind separator rest)

end Splitting

/-- `explode`: the array with its `NULL`, and the count that is returned. `junk` is what the new
buffer holds. -/
def explode (junk behind : ℕ → Char) (separator s : CStr) : Option (List (Option CStr) × ℤ) := do
  let st ← Splitting.run behind separator s ⟨junk, 0, []⟩
  let st ← if sameString st.token 0 separator then some st else (st.put nul).map Splitting.append
  let arr := st.arr ++ [none]
  some (arr, (arr.length : ℤ) - 1)

/-- The strings of an array before its `NULL`. -/
def strings : List (Option CStr) → List CStr
  | some s :: arr => s :: strings arr
  | _ => []

/-! ## The pieces -/

/-- The pieces that are ended by a match, and what comes after the last match. -/
def scan (separator : CStr) : CStr → CStr → List CStr × CStr
  | token, [] => ([], token)
  | token, c :: s =>
    if separator.isPrefixOf (c :: s) then
      (token :: (scan separator [] s).1, (scan separator [] s).2)
    else scan separator (token ++ [c]) s

/-- All pieces of a text. -/
def pieces (separator s : CStr) : List CStr :=
  (scan separator [] s).1 ++ [(scan separator [] s).2]

/-- The pieces come back, whatever the memory holds: joined they are the text, none contains the
separator, and they are as many as is returned. -/
def SplitsAndJoins (separator s : CStr) : Prop :=
  ∀ junk behind, ∃ arr count, explode junk behind separator s = some (arr, count) ∧
    separator.intercalate (strings arr) = s ∧ (∀ p ∈ strings arr, ¬separator <:+: p) ∧
    count = (strings arr).length

section scan

variable {separator token s : CStr}

lemma scan_cons_pos {c : Char} (h : separator <+: c :: s) : scan separator token (c :: s) =
    (token :: (scan separator [] s).1, (scan separator [] s).2) := by
  rw [scan, if_pos (List.isPrefixOf_iff_prefix.2 h)]

lemma scan_cons_neg {c : Char} (h : ¬separator <+: c :: s) :
    scan separator token (c :: s) = scan separator (token ++ [c]) s := by
  rw [scan, if_neg fun hmatch => h (List.isPrefixOf_iff_prefix.1 hmatch)]

/-- For one character these are the parts that the points of the tests are split into. -/
lemma explodeFrom_eq (x : Char) (token s : CStr) :
    Strlib.explodeFrom x token s = (scan [x] token s).1 ++ [(scan [x] token s).2] := by
  induction s generalizing token with
  | nil => rfl
  | cons c s ih =>
    rw [Strlib.explodeFrom]
    by_cases hc : c = x
    · subst hc
      rw [if_pos rfl, ih, scan_cons_pos (by simp)]
      rfl
    · have hne : ¬[x] <+: c :: s := by simpa using Ne.symm hc
      rw [if_neg hc, ih, scan_cons_neg hne]

/-- Without a match there is one piece. -/
lemma scan_of_absent (h : ¬separator <:+: s) : scan separator token s = ([], token ++ s) := by
  induction s generalizing token with
  | nil => simp [scan]
  | cons c s ih =>
    rw [scan_cons_neg fun hmatch => h hmatch.isInfix,
      ih fun hfound => h (hfound.trans (List.suffix_cons c s).isInfix)]
    simp

lemma scan_eq_of_nil (h : (scan separator token s).1 = []) :
    (scan separator token s).2 = token ++ s := by
  induction s generalizing token with
  | nil => simp [scan]
  | cons c s ih =>
    by_cases hmatch : separator <+: c :: s
    · rw [scan_cons_pos hmatch] at h
      cases h
    · rw [scan_cons_neg hmatch] at h ⊢
      rw [ih h]
      simp

/-- The last piece follows the first character of the last match. -/
lemma exists_last_match (h : (scan separator token s).1 ≠ []) :
    ∃ c, separator <+: c :: (scan separator token s).2 := by
  induction s generalizing token with
  | nil => exact absurd rfl h
  | cons c s ih =>
    by_cases hmatch : separator <+: c :: s
    · rw [scan_cons_pos hmatch] at h ⊢
      by_cases hrest : (scan separator [] s).1 = []
      · refine ⟨c, ?_⟩
        dsimp only
        rwa [scan_eq_of_nil hrest]
      · exact ih hrest
    · rw [scan_cons_neg hmatch] at h ⊢
      exact ih h

/-- What is in the buffer begins a piece. -/
lemma exists_piece (separator token s : CStr) :
    ∃ p ∈ (scan separator token s).1 ++ [(scan separator token s).2], token <+: p := by
  induction s generalizing token with
  | nil => exact ⟨token, by simp [scan], List.prefix_refl token⟩
  | cons c s ih =>
    by_cases hmatch : separator <+: c :: s
    · rw [scan_cons_pos hmatch]
      exact ⟨token, by simp, List.prefix_refl token⟩
    · rw [scan_cons_neg hmatch]
      obtain ⟨p, hp, htoken⟩ := ih (token ++ [c])
      exact ⟨p, hp, (List.prefix_append token [c]).trans htoken⟩

/-- No match begins in the characters that are in the buffer. -/
def Unmatched (separator token s : CStr) : Prop :=
  ∀ u v, token = u ++ v → v ≠ [] → ¬separator <+: v ++ s

lemma Unmatched.concat {c : Char} (h : Unmatched separator token (c :: s))
    (hmatch : ¬separator <+: c :: s) : Unmatched separator (token ++ [c]) s := by
  intro u v heq hv
  obtain ⟨v, d, rfl⟩ := (List.eq_nil_or_concat' v).resolve_left hv
  rw [← List.append_assoc] at heq
  obtain ⟨htoken, hcd⟩ := List.append_inj' heq rfl
  obtain rfl := List.singleton_inj.1 hcd
  rw [List.append_assoc, List.singleton_append]
  by_cases hnil : v = []
  · rwa [hnil]
  · exact h u v htoken hnil

lemma Unmatched.absent (h : Unmatched separator token s) (hsep : separator ≠ []) :
    ¬separator <:+: token := by
  rintro ⟨u, v, heq⟩
  refine h u (separator ++ v) (by rw [← heq, List.append_assoc]) (by simp [hsep]) ?_
  rw [List.append_assoc]
  exact List.prefix_append _ _

/-- No piece contains the separator. -/
lemma absent_of_mem (h : Unmatched separator token s) (hsep : separator ≠ []) :
    ∀ p ∈ (scan separator token s).1 ++ [(scan separator token s).2], ¬separator <:+: p := by
  induction s generalizing token with
  | nil =>
    intro p hp
    obtain rfl := List.mem_singleton.1 hp
    exact h.absent hsep
  | cons c s ih =>
    by_cases hmatch : separator <+: c :: s
    · rw [scan_cons_pos hmatch]
      intro p hp
      obtain rfl | hp := List.mem_cons.1 hp
      · exact h.absent hsep
      · refine ih ?_ p hp
        intro u v heq hv
        exact absurd (List.append_eq_nil_iff.1 heq.symm).2 hv
    · rw [scan_cons_neg hmatch]
      exact ih (h.concat hmatch)

lemma unmatched_nil (separator s : CStr) : Unmatched separator [] s := by
  intro u v heq hv
  exact absurd (List.append_eq_nil_iff.1 heq.symm).2 hv

/-- Joined by one character the pieces are the text. -/
lemma intercalate_scan (x : Char) (token s : CStr) :
    [x].intercalate ((scan [x] token s).1 ++ [(scan [x] token s).2]) = token ++ s := by
  induction s generalizing token with
  | nil => simp [scan]
  | cons c s ih =>
    by_cases hc : x = c
    · subst hc
      rw [scan_cons_pos (by simp), List.cons_append, List.intercalate_cons_of_ne_nil (by simp), ih]
      simp
    · have hne : ¬[x] <+: c :: s := by simpa using hc
      rw [scan_cons_neg hne, ih]
      simp

/-- Each match costs the text one character, and joined the pieces have a separator there. -/
lemma length_intercalate_scan (separator token s : CStr) :
    (separator.intercalate ((scan separator token s).1 ++ [(scan separator token s).2])).length +
      (scan separator token s).1.length =
      token.length + s.length + (scan separator token s).1.length * separator.length := by
  induction s generalizing token with
  | nil => simp [scan]
  | cons c s ih =>
    by_cases hmatch : separator <+: c :: s
    · have hrest := ih []
      rw [scan_cons_pos hmatch, List.cons_append, List.intercalate_cons_of_ne_nil (by simp)]
      simp only [List.length_append, List.length_cons, List.length_nil, Nat.add_mul] at hrest ⊢
      omega
    · have hrest := ih (token ++ [c])
      rw [scan_cons_neg hmatch]
      simp only [List.length_append, List.length_cons, List.length_nil] at hrest ⊢
      omega

end scan

/-! ## The buffer -/

section buffer

variable {behind : ℕ → Char} {separator token rest s : CStr} {done : List CStr} {st : Splitting}

lemma differs_iff (hnul : nul ∉ separator) {j : ℕ} (hj : j ≤ rest.length) :
    differs behind rest j separator = false ↔ separator <+: rest.drop j := by
  induction separator generalizing j with
  | nil => simp [differs]
  | cons c separator ih =>
    rw [List.mem_cons, not_or] at hnul
    rcases hj.lt_or_eq with hlt | rfl
    · have hbyte : byteAt behind rest j = rest[j] := by
        simp [byteAt, List.getElem?_append_left hlt, hlt]
      rw [differs, hbyte, Bool.or_eq_false_iff, ih hnul.2 hlt, List.drop_eq_getElem_cons hlt,
        List.cons_prefix_cons, decide_eq_false_iff_not, not_not, eq_comm]
    · have hbyte : byteAt behind rest rest.length = nul := by simp [byteAt]
      simp [differs, hbyte, hnul.1]

/-- The buffer holds the characters after the last match, and the array the pieces before it. -/
structure Holds (st : Splitting) (token : CStr) (done : List CStr) : Prop where
  buffer : (List.range token.length).map st.token = token
  len : st.len = token.length
  arr : st.arr = done.map some
  clean : nul ∉ token

namespace Holds

lemma token_eq (h : Holds st token done) {i : ℕ} (hi : i < token.length) :
    st.token i = token[i] := by
  have hget := List.getElem_of_eq h.buffer.symm hi
  rw [hget, List.getElem_map, List.getElem_range]

lemma buffer_update (h : Holds st token done) (c : Char) :
    (List.range (st.len + 1)).map (Function.update st.token st.len c) = token ++ [c] := by
  have hkept : (List.range st.len).map (Function.update st.token st.len c) =
      (List.range st.len).map st.token := by
    refine List.map_congr_left fun i hi => ?_
    exact Function.update_of_ne (List.mem_range.1 hi).ne _ _
  rw [List.range_succ, List.map_append, List.map_singleton, Function.update_self, hkept, h.len,
    h.buffer]

end Holds

/-- A piece is ended by a NUL and copied. -/
lemma put_append (h : Holds st token done) (hfits : token.length < 4096) :
    (st.put nul).map Splitting.append =
      some ⟨Function.update st.token st.len nul, 0, st.arr ++ [some token]⟩ := by
  have hall : ∀ x ∈ token, decide (x ≠ nul) = true := by
    intro x hx
    refine decide_eq_true ?_
    rintro rfl
    exact h.clean hx
  have htake : (token ++ [nul]).takeWhile (· ≠ nul) = token := by
    rw [List.takeWhile_append_of_pos hall]
    simp
  rw [Splitting.put, if_pos (h.len ▸ hfits), Option.map_some, Splitting.append]
  simp only [h.buffer_update, htake]

lemma step_of_match (h : Holds st token done) (hfits : token.length < 4096)
    (hnul : nul ∉ separator) {c : Char} (hmatch : separator <+: c :: rest) :
    st.step behind separator c rest =
      some ⟨Function.update st.token st.len nul, 0, st.arr ++ [some token]⟩ := by
  have hdiffers := (@differs_iff behind _ (c :: rest) hnul 0 (Nat.zero_le _)).2 hmatch
  rw [Splitting.step, hdiffers, if_neg Bool.false_ne_true, put_append h hfits]

lemma step_of_differs (h : Holds st token done) (hfits : token.length < 4096)
    (hnul : nul ∉ separator) {c : Char} (hmatch : ¬separator <+: c :: rest) :
    st.step behind separator c rest =
      some ⟨Function.update st.token st.len c, st.len + 1, st.arr⟩ := by
  have hdiffers : differs behind (c :: rest) 0 separator = true := by
    rw [← Bool.not_eq_false, differs_iff hnul (Nat.zero_le _)]
    exact hmatch
  rw [Splitting.step, hdiffers, if_pos rfl, Splitting.put, if_pos (h.len ▸ hfits)]

/-- The loop leaves the pieces in the array and the last one in the buffer. What each iteration
preserves of the buffer holds of it in the end. -/
lemma run_spec {P : (ℕ → Char) → ℕ → CStr → Prop} (hnul : nul ∉ separator)
    (hmatch : ∀ buffer len c rest, P buffer len (c :: rest) → separator <+: c :: rest →
      P (Function.update buffer len nul) 0 rest)
    (hdiffers : ∀ buffer len c rest, P buffer len (c :: rest) → ¬separator <+: c :: rest → c ≠ nul →
      P (Function.update buffer len c) (len + 1) rest)
    (h : Holds st token done) (hclean : nul ∉ s) (hP : P st.token st.len s)
    (hfits : ∀ p ∈ (scan separator token s).1 ++ [(scan separator token s).2], p.length < 4096) :
    ∃ t, Splitting.run behind separator s st = some t ∧
      Holds t (scan separator token s).2 (done ++ (scan separator token s).1) ∧
      P t.token t.len [] := by
  induction s generalizing st token done with
  | nil => exact ⟨st, rfl, by simpa [scan] using h, hP⟩
  | cons c s ih =>
    rw [List.mem_cons, not_or] at hclean
    by_cases hc : separator <+: c :: s
    · rw [scan_cons_pos hc] at hfits ⊢
      have hlength := hfits token (by simp)
      obtain ⟨t, ht, hrep, hPt⟩ := @ih [] (done ++ [token])
        ⟨Function.update st.token st.len nul, 0, st.arr ++ [some token]⟩
        ⟨rfl, rfl, by simp [h.arr], by simp⟩ hclean.2 (hmatch _ _ _ _ hP hc)
        fun p hp => hfits p (by simp only [List.cons_append, List.mem_cons, hp, or_true])
      refine ⟨t, ?_, by simpa using hrep, hPt⟩
      rw [Splitting.run, step_of_match h hlength hnul hc, Option.bind_some]
      exact ht
    · rw [scan_cons_neg hc] at hfits ⊢
      obtain ⟨p, hp, htoken⟩ := exists_piece separator (token ++ [c]) s
      have hlength : token.length < 4096 :=
        ((List.prefix_append token [c]).trans htoken).length_le.trans_lt (hfits p hp)
      obtain ⟨t, ht, hrep, hPt⟩ := @ih (token ++ [c]) done
        ⟨Function.update st.token st.len c, st.len + 1, st.arr⟩
        ⟨by simpa [h.len] using h.buffer_update c, by simp [h.len], h.arr,
          by simp [h.clean, hclean.1]⟩
        hclean.2 (hdiffers _ _ _ _ hP hc (Ne.symm hclean.1)) hfits
      refine ⟨t, ?_, hrep, hPt⟩
      rw [Splitting.run, step_of_differs h hlength hnul hc, Option.bind_some]
      exact ht

lemma sameString_iff (token : ℕ → Char) (j : ℕ) : sameString token j separator ↔
    (∀ i (h : i < separator.length), token (j + i) = separator[i]) ∧
      token (j + separator.length) = nul := by
  induction separator generalizing j with
  | nil => simp [sameString]
  | cons c separator ih =>
    rw [sameString, Bool.and_eq_true, decide_eq_true_iff, ih, ← and_assoc]
    refine and_congr ?_ (by rw [List.length_cons, Nat.add_assoc, Nat.add_comm 1])
    constructor
    · rintro ⟨hfirst, hrest⟩ i hi
      cases i with
      | zero => exact hfirst
      | succ i =>
        have hget := hrest i (by simpa using hi)
        rwa [Nat.add_right_comm] at hget
    · intro hall
      refine ⟨hall 0 (by simp), fun i hi => ?_⟩
      rw [Nat.add_assoc, Nat.add_comm 1]
      exact hall (i + 1) (by simpa using hi)

lemma strings_map (l : List CStr) : strings (l.map some ++ [none]) = l := by
  induction l with
  | nil => rfl
  | cons p l ih =>
    rw [List.map_cons, List.cons_append, strings, ih]

/-- What is returned when the loop has left these pieces and the last one in the buffer. -/
lemma explode_of_run {junk : ℕ → Char} {last : CStr}
    (hrun : Splitting.run behind separator s ⟨junk, 0, []⟩ = some st) (h : Holds st last done)
    (hfits : last.length < 4096) :
    ∃ arr count, explode junk behind separator s = some (arr, count) ∧
      count = (strings arr).length ∧
      strings arr = if sameString st.token 0 separator then done else done ++ [last] := by
  by_cases hsame : sameString st.token 0 separator
  · refine ⟨done.map some ++ [none], done.length, ?_, by rw [strings_map], ?_⟩
    · simp [explode, hrun, hsame, h.arr]
    · rw [if_pos hsame, strings_map]
  · refine ⟨(done ++ [last]).map some ++ [none], (done ++ [last]).length, ?_,
      by rw [strings_map], ?_⟩
    · simp [explode, hrun, hsame, put_append h hfits, h.arr]
    · rw [if_neg hsame, strings_map]

end buffer

/-! ## When the pieces come back -/

section result

variable {separator s : CStr}

/-- All pieces fit the buffer. -/
def Fits (separator s : CStr) : Prop := ∀ p ∈ pieces separator s, p.length < 4096

lemma holds_new (junk : ℕ → Char) : Holds ⟨junk, 0, []⟩ [] [] := ⟨rfl, rfl, rfl, by simp⟩

/-- The loop over the whole text, with what it preserves of a new buffer. -/
lemma exists_explode (junk behind : ℕ → Char) {P : (ℕ → Char) → ℕ → CStr → Prop}
    (hnul : nul ∉ separator) (hclean : nul ∉ s) (hfits : Fits separator s)
    (hmatch : ∀ buffer len c rest, P buffer len (c :: rest) → separator <+: c :: rest →
      P (Function.update buffer len nul) 0 rest)
    (hdiffers : ∀ buffer len c rest, P buffer len (c :: rest) → ¬separator <+: c :: rest → c ≠ nul →
      P (Function.update buffer len c) (len + 1) rest)
    (hP : P junk 0 s) :
    ∃ t arr count, Holds t (scan separator [] s).2 (scan separator [] s).1 ∧ P t.token t.len [] ∧
      explode junk behind separator s = some (arr, count) ∧ count = (strings arr).length ∧
      strings arr = if sameString t.token 0 separator then (scan separator [] s).1
        else pieces separator s := by
  obtain ⟨t, ht, hrep, hPt⟩ := @run_spec behind separator [] s [] ⟨junk, 0, []⟩ P hnul hmatch
    hdiffers (holds_new junk) hclean hP hfits
  obtain ⟨arr, count, hexplode⟩ := explode_of_run ht hrep (hfits _ (by simp [pieces]))
  exact ⟨t, arr, count, hrep, hPt, hexplode⟩

/-- The buffer does not begin with a separator of one character, once something was written. -/
def FirstDiffers (x : Char) (s : CStr) (buffer : ℕ → Char) (len : ℕ) (rest : CStr) : Prop :=
  len = 0 ∧ rest = s ∨ buffer 0 ≠ x

lemma FirstDiffers.update {x c d : Char} {buffer : ℕ → Char} {len : ℕ} {rest : CStr}
    (h : FirstDiffers x s buffer len (c :: rest)) (hd : d ≠ x) (n : ℕ) :
    FirstDiffers x s (Function.update buffer len d) n rest := by
  refine .inr ?_
  by_cases hlen : len = 0
  · rwa [hlen, Function.update_self]
  · rw [Function.update_of_ne (Ne.symm hlen)]
    exact h.resolve_left fun hnew => hlen hnew.1

/-- A text that is not empty is split into all its pieces by one character. -/
lemma exists_explode_singleton (junk behind : ℕ → Char) {x : Char} (hnul : nul ∉ [x])
    (hclean : nul ∉ s) (hfits : Fits [x] s) (hs : s ≠ []) :
    ∃ arr count, explode junk behind [x] s = some (arr, count) ∧ count = (strings arr).length ∧
      strings arr = pieces [x] s := by
  have hx : nul ≠ x := by simpa using hnul
  have hdiffers : ∀ (buffer : ℕ → Char) (len : ℕ) (c : Char) (rest : CStr),
      FirstDiffers x s buffer len (c :: rest) → ¬[x] <+: c :: rest → c ≠ nul →
      FirstDiffers x s (Function.update buffer len c) (len + 1) rest := by
    intro buffer len c rest h hc _
    have hne : c ≠ x := by
      rintro rfl
      exact hc (by simp)
    exact h.update hne _
  obtain ⟨t, arr, count, -, hP, hexplode, hcount, harr⟩ := exists_explode junk behind hnul hclean
    hfits (fun _ _ _ _ h _ => h.update hx 0) hdiffers (.inl ⟨rfl, rfl⟩)
  have hfirst : t.token 0 ≠ x := hP.resolve_left fun h => hs h.2.symm
  have hsame : ¬sameString t.token 0 [x] := by
    rw [sameString_iff]
    rintro ⟨hall, -⟩
    exact hfirst (hall 0 (by simp))
  rw [if_neg hsame] at harr
  exact ⟨arr, count, hexplode, hcount, harr⟩

lemma explode_nil (junk behind : ℕ → Char) (separator : CStr) :
    ∃ arr count, explode junk behind separator [] = some (arr, count) ∧
      count = (strings arr).length ∧
      strings arr = if sameString junk 0 separator then [] else [[]] := by
  by_cases hsame : sameString junk 0 separator
  · exact ⟨[none], 0, by simp [explode, Splitting.run, hsame], rfl, by simp [hsame, strings]⟩
  · refine ⟨[some [], none], 1, ?_, rfl, by simp [hsame, strings]⟩
    simp [explode, Splitting.run, hsame, Splitting.put, Splitting.append]

/-- The parts of a text of points are the pieces that a separator of one character gives. -/
lemma strlib_explode_eq (junk behind : ℕ → Char) {x : Char} (hnul : nul ∉ [x])
    (hclean : nul ∉ s) (hfits : Fits [x] s) :
    ∃ arr count, explode junk behind [x] s = some (arr, count) ∧
      Strlib.explode x (sameString junk 0 [x]) s = some (strings arr) := by
  by_cases hs : s = []
  · subst hs
    obtain ⟨arr, count, hexplode, -, harr⟩ := explode_nil junk behind [x]
    refine ⟨arr, count, hexplode, ?_⟩
    rw [harr]
    by_cases hsame : sameString junk 0 [x] <;> simp [Strlib.explode, Strlib.explodeFrom, hsame]
  · obtain ⟨arr, count, hexplode, -, harr⟩ :=
      exists_explode_singleton junk behind hnul hclean hfits hs
    refine ⟨arr, count, hexplode, ?_⟩
    have hall : (pieces [x] s).all (·.length < 4096) = true :=
      List.all_eq_true.2 fun p hp => decide_eq_true (hfits p hp)
    have htokens : Strlib.explodeFrom x [] s = pieces [x] s := explodeFrom_eq x [] s
    simp only [Strlib.explode, hs, false_and, if_false, htokens, harr, hall, if_true]

lemma splitsAndJoins_singleton {x : Char} (hnul : nul ∉ [x]) (hclean : nul ∉ s)
    (hfits : Fits [x] s) (hs : s ≠ []) : SplitsAndJoins [x] s := by
  intro junk behind
  obtain ⟨arr, count, hexplode, hcount, harr⟩ :=
    exists_explode_singleton junk behind hnul hclean hfits hs
  refine ⟨arr, count, hexplode, ?_, ?_, hcount⟩
  · rw [harr]
    exact intercalate_scan x [] s
  · rw [harr]
    exact absent_of_mem (unmatched_nil _ _) (by simp)

/-- The empty text is one empty piece or none. -/
lemma splitsAndJoins_nil (hsep : separator ≠ []) : SplitsAndJoins separator [] := by
  intro junk behind
  obtain ⟨arr, count, hexplode, hcount, harr⟩ := explode_nil junk behind separator
  refine ⟨arr, count, hexplode, ?_, ?_, hcount⟩
  · rw [harr]
    split <;> simp
  · rw [harr]
    split <;> simp [hsep]

/-- What the loop leaves behind a text without a match: the text, and the old bytes behind it. -/
lemma exists_explode_of_absent (junk behind : ℕ → Char) (hnul : nul ∉ separator)
    (hclean : nul ∉ s) (hfits : Fits separator s) (hfound : ¬separator <:+: s) :
    ∃ buffer arr count, (∀ i (h : i < s.length), buffer i = s[i]) ∧
      (∀ i, s.length ≤ i → buffer i = junk i) ∧
      explode junk behind separator s = some (arr, count) ∧
      count = (strings arr).length ∧
      strings arr = if sameString buffer 0 separator then [] else [s] := by
  have hscan := @scan_of_absent separator [] s hfound
  have hdiffers : ∀ (buffer : ℕ → Char) (len : ℕ) (c : Char) (rest : CStr),
      (¬separator <:+: c :: rest ∧ ∀ i, len ≤ i → buffer i = junk i) → ¬separator <+: c :: rest →
      c ≠ nul → ¬separator <:+: rest ∧
        ∀ i, len + 1 ≤ i → Function.update buffer len c i = junk i := by
    intro buffer len c rest h _ _
    refine ⟨fun hrest => h.1 (hrest.trans (List.suffix_cons c rest).isInfix), fun i hi => ?_⟩
    rw [Function.update_of_ne (by omega)]
    exact h.2 i (by omega)
  obtain ⟨t, arr, count, hrep, hP, hexplode, hcount, harr⟩ :=
    @exists_explode separator s junk behind
      (fun buffer len rest => ¬separator <:+: rest ∧ ∀ i, len ≤ i → buffer i = junk i) hnul hclean
      hfits (fun _ _ _ _ h hmatch => absurd hmatch.isInfix h.1) hdiffers ⟨hfound, fun _ _ => rfl⟩
  rw [pieces, hscan] at harr
  rw [hscan] at hrep
  refine ⟨t.token, arr, count, fun i hi => hrep.token_eq hi, fun i hi => hP.2 i ?_, hexplode,
    hcount, harr⟩
  rw [hrep.len]
  exact hi

lemma splitsAndJoins_of_absent (hnul : nul ∉ separator) (hclean : nul ∉ s)
    (hfits : Fits separator s) (hfound : ¬separator <:+: s) (hshort : ¬s <+: separator) :
    SplitsAndJoins separator s := by
  intro junk behind
  obtain ⟨buffer, arr, count, htext, -, hexplode, hcount, harr⟩ :=
    exists_explode_of_absent junk behind hnul hclean hfits hfound
  have hsame : ¬sameString buffer 0 separator := by
    rw [sameString_iff]
    rintro ⟨hall, -⟩
    have heq : ∀ i (h : i < s.length) (h' : i < separator.length), s[i] = separator[i] := by
      intro i h h'
      rw [← htext i h, ← hall i h', Nat.zero_add]
    rcases Nat.le_total s.length separator.length with hle | hle
    · refine hshort (List.prefix_iff_getElem.2 ⟨hle, fun i hi => heq i hi _⟩)
    · refine hfound (List.prefix_iff_getElem.2 ⟨hle, fun i hi => ?_⟩).isInfix
      exact (heq i _ hi).symm
  rw [if_neg hsame] at harr
  refine ⟨arr, count, hexplode, by simp [harr], ?_, hcount⟩
  rw [harr]
  simpa using hfound

/-- A new buffer in which the separator stands already. -/
def leftover (separator : CStr) (i : ℕ) : Char := (separator ++ [nul]).getD i nul

/-- A text that begins the separator is completed by what stood in the buffer. -/
lemma not_splitsAndJoins_of_short (hnul : nul ∉ separator) (hclean : nul ∉ s)
    (hfits : Fits separator s) (hfound : ¬separator <:+: s) (hs : s ≠ [])
    (hshort : s <+: separator) : ¬SplitsAndJoins separator s := by
  intro h
  obtain ⟨buffer, arr, count, htext, hjunk, hexplode, -, harr⟩ :=
    exists_explode_of_absent (leftover separator) (fun _ => nul) hnul hclean hfits hfound
  obtain ⟨hle, hget⟩ := List.prefix_iff_getElem.1 hshort
  have hsame : sameString buffer 0 separator := by
    rw [sameString_iff]
    refine ⟨fun i hi => ?_, ?_⟩
    · rw [Nat.zero_add]
      rcases Nat.lt_or_ge i s.length with hlt | hge
      · rw [htext i hlt, hget i hlt]
      · rw [hjunk i hge]
        simp [leftover, List.getElem?_append_left hi, hi]
    · rw [Nat.zero_add, hjunk _ hle]
      simp [leftover]
  obtain ⟨arr', count', hexplode', hjoin, -⟩ := h (leftover separator) fun _ => nul
  obtain ⟨rfl, rfl⟩ := Prod.mk.inj (Option.some.inj (hexplode.symm.trans hexplode'))
  rw [harr, if_pos hsame, List.intercalate_nil] at hjoin
  exact hs hjoin.symm

lemma prefix_cons_of_const {c : Char} {rest : CStr} (hconst : ∀ x ∈ separator, x = c)
    (h : separator <+: rest) : separator <+: c :: rest := by
  obtain ⟨rest, rfl⟩ := h
  rw [List.eq_replicate_of_mem hconst, ← List.cons_append, ← List.replicate_succ,
    List.replicate_succ', List.append_assoc]
  exact List.prefix_append _ _

/-- Of a separator that repeats one character: no match begins with the last character in the
buffer, and a NUL that was left where the separator would end does not follow this character, unless
the character was written last. -/
def NoRepeat (separator : CStr) (buffer : ℕ → Char) (len : ℕ) (rest : CStr) : Prop :=
  ∀ c, (∀ x ∈ separator, x = c) →
    (0 < len → ¬separator <+: buffer (len - 1) :: rest) ∧
    (buffer separator.length = nul → buffer (separator.length - 1) = c → len = separator.length)

namespace NoRepeat

variable {buffer : ℕ → Char} {len : ℕ} {c : Char} {rest : CStr}

lemma put (h : NoRepeat separator buffer len (c :: rest)) (hmatch : ¬separator <+: c :: rest)
    (hc : c ≠ nul) : NoRepeat separator (Function.update buffer len c) (len + 1) rest := by
  intro d hconst
  refine ⟨fun _ => by rwa [Nat.add_sub_cancel, Function.update_self], fun hnul hlast => ?_⟩
  by_cases hlen : len = separator.length
  · rw [hlen, Function.update_self] at hnul
    exact absurd hnul hc
  · rw [Function.update_of_ne (Ne.symm hlen)] at hnul
    by_contra hne
    rw [Function.update_of_ne (by omega)] at hlast
    exact hlen ((h d hconst).2 hnul hlast)

lemma append (h : NoRepeat separator buffer len (c :: rest)) (hsep : separator ≠ [])
    (hnul : nul ∉ separator) (hmatch : separator <+: c :: rest) :
    NoRepeat separator (Function.update buffer len nul) 0 rest := by
  intro d hconst
  refine ⟨fun hpos => absurd hpos (lt_irrefl 0), fun hend hlast => ?_⟩
  exfalso
  have hpos : 0 < separator.length := List.length_pos_iff.2 hsep
  have hd : d ∈ separator := by
    obtain ⟨x, hx⟩ := List.exists_mem_of_ne_nil _ hsep
    rwa [← hconst x hx]
  have hne : len ≠ separator.length - 1 := by
    rintro rfl
    rw [Function.update_self] at hlast
    exact hnul (hlast ▸ hd)
  rw [Function.update_of_ne (Ne.symm hne)] at hlast
  by_cases hlen : len = separator.length
  · -- the character before the match would begin a match too
    refine (h d hconst).1 (by omega) ?_
    rw [hlen, hlast]
    exact prefix_cons_of_const hconst hmatch
  · rw [Function.update_of_ne (Ne.symm hlen)] at hend
    exact hlen ((h d hconst).2 hend hlast)

end NoRepeat

/-- Behind a match of a longer separator the last piece does not look like the separator. -/
lemma not_sameString {t : Splitting} (hlength : 2 ≤ separator.length)
    (hdone : (scan separator [] s).1 ≠ [])
    (hrep : Holds t (scan separator [] s).2 (scan separator [] s).1)
    (hP : NoRepeat separator t.token t.len []) : ¬sameString t.token 0 separator := by
  rw [sameString_iff]
  rintro ⟨hall, hend⟩
  simp only [Nat.zero_add] at hall hend
  obtain ⟨c, hmatch⟩ := exists_last_match hdone
  have hsep : separator ≠ [] := List.ne_nil_of_length_pos (by omega)
  have hnot := absent_of_mem (unmatched_nil separator s) hsep (scan separator [] s).2 (by simp)
  generalize (scan separator [] s).2 = last at *
  obtain ⟨hle, hget⟩ := List.prefix_iff_getElem.1 hmatch
  rw [List.length_cons] at hle
  -- the last piece begins with the separator less its first character
  have hshift : ∀ i (h : i + 1 < separator.length), separator[i + 1] = separator[i] := by
    intro i h
    rw [hget (i + 1) h, List.getElem_cons_succ, ← hrep.token_eq (by omega), hall i (by omega)]
  have hconst : ∀ i (h : i < separator.length), separator[i] = c := by
    intro i h
    induction i with
    | zero => exact hget 0 h
    | succ i ih => rw [hshift i h, ih (by omega)]
  have hlast : last.length = separator.length - 1 := by
    by_contra hne
    refine hnot (List.prefix_iff_getElem.2 ⟨by omega, fun i hi => ?_⟩).isInfix
    rw [← hall i hi, hrep.token_eq (by omega)]
  have hmem : ∀ x ∈ separator, x = c := by
    intro x hx
    obtain ⟨i, hi, rfl⟩ := List.getElem_of_mem hx
    exact hconst i hi
  have hlen := (hP c hmem).2 hend (by rw [hall _ (by omega), hconst])
  rw [hrep.len] at hlen
  omega

lemma not_splitsAndJoins_of_found (hlength : 2 ≤ separator.length) (hnul : nul ∉ separator)
    (hclean : nul ∉ s) (hfits : Fits separator s) (hfound : separator <:+: s) :
    ¬SplitsAndJoins separator s := by
  intro h
  have hsep : separator ≠ [] := List.ne_nil_of_length_pos (by omega)
  have hdone : (scan separator [] s).1 ≠ [] := by
    intro hnil
    have hlast := absent_of_mem (unmatched_nil separator s) hsep (scan separator [] s).2
      (by simp)
    rw [scan_eq_of_nil hnil] at hlast
    exact hlast hfound
  have hinitial : NoRepeat separator (fun _ => 'a') 0 s := by
    intro c _
    have ha : 'a' ≠ nul := by decide
    exact ⟨fun hpos => absurd hpos (lt_irrefl 0), fun hend => absurd hend ha⟩
  obtain ⟨t, arr, count, hrep, hP, hexplode, -, harr⟩ :=
    exists_explode (fun _ => 'a') (fun _ => nul) hnul hclean hfits
      (fun _ _ _ _ h hmatch => h.append hsep hnul hmatch)
      (fun _ _ _ _ h hmatch hc => h.put hmatch hc) hinitial
  rw [if_neg (not_sameString hlength hdone hrep hP)] at harr
  obtain ⟨arr', count', hexplode', hjoin, -⟩ := h (fun _ => 'a') fun _ => nul
  obtain ⟨rfl, rfl⟩ := Prod.mk.inj (Option.some.inj (hexplode.symm.trans hexplode'))
  have hcount := length_intercalate_scan separator [] s
  rw [harr, pieces] at hjoin
  rw [hjoin] at hcount
  have hpos := List.length_pos_iff.2 hdone
  have hmul : (scan separator [] s).1.length * 2 ≤
      (scan separator [] s).1.length * separator.length := Nat.mul_le_mul_left _ hlength
  rw [List.length_nil] at hcount
  omega

/-- The pieces of a text come back exactly when the separator is one character, when the text is
empty, or when the text has no separator and does not begin one. -/
theorem splitsAndJoins_iff (separator s : CStr) (hsep : separator ≠ []) (hnul : nul ∉ separator)
    (hclean : nul ∉ s) (hfits : Fits separator s) : SplitsAndJoins separator s ↔
      separator.length = 1 ∨ s = [] ∨ ¬separator <:+: s ∧ ¬s <+: separator := by
  constructor
  · intro h
    by_contra hnot
    rw [not_or, not_or, not_and_or, not_not, not_not] at hnot
    obtain ⟨hone, hs, hfound⟩ := hnot
    have hpos := List.length_pos_iff.2 hsep
    by_cases hmatch : separator <:+: s
    · exact not_splitsAndJoins_of_found (by omega) hnul hclean hfits hmatch h
    · exact not_splitsAndJoins_of_short hnul hclean hfits hmatch hs (hfound.resolve_left hmatch) h
  · rintro (hone | rfl | ⟨hfound, hshort⟩)
    · obtain ⟨x, rfl⟩ := List.length_eq_one_iff.1 hone
      by_cases hs : s = []
      · rw [hs]
        exact splitsAndJoins_nil hsep
      · exact splitsAndJoins_singleton hnul hclean hfits hs
    · exact splitsAndJoins_nil hsep
    · exact splitsAndJoins_of_absent hnul hclean hfits hfound hshort

/-- Three points with blanks between them. -/
theorem splitsAndJoins_iff_points : SplitsAndJoins [' '] ['1', ' ', '2', ' ', '3'] := by
  have hfits : Fits [' '] ['1', ' ', '2', ' ', '3'] := by
    unfold Fits
    decide
  exact (splitsAndJoins_iff [' '] ['1', ' ', '2', ' ', '3'] (by decide) (by decide) (by decide)
    hfits).2 (.inl rfl)

/-- The second character of the separator comes back with the piece behind it. -/
theorem long_separator_is_repeated : ¬SplitsAndJoins [',', ' '] ['a', ',', ' ', 'b'] := by
  have hfits : Fits [',', ' '] ['a', ',', ' ', 'b'] := by
    unfold Fits
    decide
  exact not_splitsAndJoins_of_found (by decide) (by decide) (by decide) hfits ⟨['a'], ['b'], rfl⟩

end result

end WebTester.Explode
