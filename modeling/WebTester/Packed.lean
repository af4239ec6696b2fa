import WebTester.AssArr
import WebTester.Loop
import Mathlib.Data.List.Flatten

/-!
# Packed associative arrays

`assarr_pack` writes the entries of an array one after the other, each as its key, the
length of its value and the value, with a `;` after every part. `assarr_unpack` reads
such a text with a machine of three states. In the last one it looks for the end of a
value before it counts characters, and it copies blocks of the given length until it
finds one.
-/
namespace WebTester.Assarr
open CString Loop

/-- What the token that is being read stands for. -/
inductive Stage
  | key
  | length
  | value
  deriving DecidableEq, Repr

/-- The variables of `assarr_unpack`, with the calls of `assarr_set_value` so far. -/
structure Unpack where
  /-- What is left of `__data`. -/
  rest : CStr
  stage : Stage
  token : CStr
  key : CStr
  dataLen : ℤ
  calls : List (CStr × CStr)
  deriving DecidableEq, Repr

namespace Unpack

/-- `token` is allocated and not set. -/
def start (junk data : CStr) : Unpack where
  rest := data
  stage := .key
  token := junk
  key := []
  dataLen := 0
  calls := []

/-- A `;` ends the token. -/
def ready (u : Unpack) (rest : CStr) : Unpack :=
  match u.stage with
  | .key => { u with rest := rest, stage := .length, token := [], key := u.token }
  | .length => { u with rest := rest, stage := .value, token := [], dataLen := atol u.token }
  | .value => { u with
      rest := rest, stage := .key, token := [], key := [], calls := u.calls ++ [(u.key, u.token)] }

/-- Copies until the count of characters is `data_len`, which a negative number never is,
or the text ends. -/
def copyValue (u : Unpack) : Unpack :=
  if u.dataLen < 0 then { u with token := u.rest, rest := [] }
  else { u with token := u.rest.take u.dataLen.toNat, rest := u.rest.drop u.dataLen.toNat }

/-- Copies until a `;` or the end of the text. -/
def copyToken (u : Unpack) : Unpack :=
  { u with token := u.rest.takeWhile (· ≠ ';'), rest := u.rest.dropWhile (· ≠ ';') }

/-- One iteration of the outer loop. -/
def step (u : Unpack) : Option Unpack :=
  match u.rest with
  | [] => none
  | c :: cs =>
    if c = ';' then some (u.ready cs)
    else if u.stage ≠ .value then some u.copyToken
    else some u.copyValue

end Unpack

/-- `assarr_unpack`, with a bound on the iterations. -/
def assarrUnpack (fuel : ℕ) (junk data : CStr) (arr : AssArr CStr) : Option (AssArr CStr) :=
  (run Unpack.step fuel (.start junk data)).bind fun u => AssArr.setAll u.calls arr

/-- A key, the length of the value as it is written, the value. -/
def packEntry (len : CStr) (e : CStr × CStr) : CStr :=
  e.1 ++ ';' :: (len ++ ';' :: (e.2 ++ [';']))

/-- `assarr_pack`. The length is printed with `%u`. -/
def assarrPack (a : AssArr CStr) : CStr :=
  a.entries.flatMap fun e => packEntry (decimal (e.2.length % 2 ^ 32)) e

/-! ## Records -/

/-- A piece of text that the machine reads as one entry. Its value is cut into blocks of
the length that is written, none of which looks like the end of the value. -/
structure Record where
  key : CStr
  length : CStr
  blocks : List CStr
  key_clean : ';' ∉ key
  length_clean : ';' ∉ length
  blocks_length : ∀ b ∈ blocks, (b.length : ℤ) = atol length
  blocks_head : ∀ b ∈ blocks, ∃ c cs, b = c :: cs ∧ c ≠ ';'

namespace Record

def text (r : Record) : CStr := packEntry r.length (r.key, r.blocks.flatten)

/-- The last block is what is stored. -/
def value (r : Record) : CStr := r.blocks.getLast?.getD []

end Record

namespace Unpack

variable {u v : Unpack} {w tail : CStr}

lemma takeWhile_clean (hw : ';' ∉ w) : (w ++ ';' :: tail).takeWhile (· ≠ ';') = w := by
  rw [List.takeWhile_append_of_pos (fun c hc => by simpa using ne_of_mem_of_not_mem hc hw)]
  simp

lemma dropWhile_clean (hw : ';' ∉ w) : (w ++ ';' :: tail).dropWhile (· ≠ ';') = ';' :: tail := by
  rw [List.dropWhile_append_of_pos (fun c hc => by simpa using ne_of_mem_of_not_mem hc hw)]
  simp

lemma step_semicolon (hr : u.rest = ';' :: tail) : u.step = some (u.ready tail) := by
  simp [step, hr]

/-- A key or a length is read up to its `;`. An empty one leaves the old token. -/
lemma reaches_token (hr : u.rest = w ++ ';' :: tail) (hw : ';' ∉ w) (hs : u.stage ≠ .value) :
    Reaches step u { u with rest := ';' :: tail, token := if w = [] then u.token else w } := by
  cases w with
  | nil =>
    rw [List.nil_append] at hr
    rw [if_pos rfl, ← hr]
    exact .refl
  | cons c cs =>
    have hc : c ≠ ';' := fun he => hw (by simp [he])
    have hstep : u.step = some u.copyToken := by simp [step, hr, hc, hs]
    refine .single (hstep.trans ?_)
    rw [copyToken, hr, takeWhile_clean hw, dropWhile_clean hw]
    simp

lemma reaches_key (hr : u.rest = w ++ ';' :: tail) (hw : ';' ∉ w) (hs : u.stage = .key) :
    Reaches step u { u with
      rest := tail, stage := .length, token := [], key := if w = [] then u.token else w } := by
  refine (reaches_token hr hw (by rw [hs]; decide)).tail ?_
  rw [step_semicolon rfl, ready]
  simp only [hs]

lemma reaches_length (hr : u.rest = w ++ ';' :: tail) (hw : ';' ∉ w) (hs : u.stage = .length)
    (ht : u.token = []) :
    Reaches step u { u with rest := tail, stage := .value, token := [], dataLen := atol w } := by
  have htoken : (if w = [] then u.token else w) = w := by
    split
    · next h => rw [h, ht]
    · rfl
  refine (reaches_token hr hw (by rw [hs]; decide)).tail ?_
  rw [step_semicolon rfl, ready]
  simp only [hs, htoken]

lemma step_block {c : Char} {cs : CStr} (hr : u.rest = c :: cs) (hc : c ≠ ';')
    (hs : u.stage = .value) : u.step = some u.copyValue := by
  simp [step, hr, hc, hs]

/-- The blocks of a value are read one after the other, and the last one stays. -/
lemma reaches_blocks {bs : List CStr} (hr : u.rest = bs.flatten ++ tail) (hs : u.stage = .value)
    (hl : ∀ b ∈ bs, (b.length : ℤ) = u.dataLen) (hh : ∀ b ∈ bs, ∃ c cs, b = c :: cs ∧ c ≠ ';') :
    Reaches step u { u with rest := tail, token := bs.getLast?.getD u.token } := by
  induction bs generalizing u with
  | nil =>
    rw [List.flatten_nil, List.nil_append] at hr
    rw [List.getLast?_nil, Option.getD_none, ← hr]
    exact .refl
  | cons b bs ih =>
    rw [List.forall_mem_cons] at hl hh
    obtain ⟨c, cs, rfl, hc⟩ := hh.1
    rw [List.flatten_cons, List.append_assoc] at hr
    have hcopy : u.copyValue = { u with rest := bs.flatten ++ tail, token := c :: cs } := by
      have hn : u.dataLen.toNat = (c :: cs).length := by omega
      rw [copyValue, if_neg (by omega), hn, hr, List.take_left, List.drop_left]
    have hstep := (step_block hr hc hs).trans (congrArg some hcopy)
    rw [List.getLast?_cons, Option.getD_some]
    exact .head hstep (ih rfl hs hl.2 hh.2)

/-- A record is read as one call of `assarr_set_value`. -/
theorem reaches_record (r : Record) (hr : u.rest = r.text ++ tail) (hs : u.stage = .key) :
    ∃ v, Reaches step u v ∧ v.rest = tail ∧ v.stage = .key ∧
      v.calls = u.calls ++ [(if r.key = [] then u.token else r.key, r.value)] := by
  have htext : u.rest =
      r.key ++ ';' :: (r.length ++ ';' :: (r.blocks.flatten ++ ';' :: tail)) := by
    rw [hr]
    simp [Record.text, packEntry]
  have hblocks := ((reaches_key htext r.key_clean hs).trans
    (reaches_length rfl r.length_clean rfl rfl)).trans
    (reaches_blocks rfl rfl r.blocks_length r.blocks_head)
  exact ⟨_, hblocks.tail (step_semicolon rfl), rfl, rfl, rfl⟩

/-- Records are read one after the other. -/
theorem reaches_records (rs : List Record) (hr : u.rest = rs.flatMap Record.text ++ tail)
    (hs : u.stage = .key) :
    ∃ v, Reaches step u v ∧ v.rest = tail ∧ v.stage = .key ∧ ((∀ r ∈ rs, r.key ≠ []) →
        v.calls = u.calls ++ rs.map fun r => (r.key, r.value)) := by
  induction rs generalizing u with
  | nil => exact ⟨u, .refl, hr, hs, by simp⟩
  | cons r rs ih =>
    rw [List.flatMap_cons, List.append_assoc] at hr
    obtain ⟨v, hv, hvr, hvs, hvc⟩ := reaches_record r hr hs
    obtain ⟨e, he, her, hes, hec⟩ := ih hvr hvs
    refine ⟨e, hv.trans he, her, hes, fun hk => ?_⟩
    rw [hec fun r' hr' => hk r' (List.mem_cons_of_mem r hr'), hvc,
      if_neg (hk r List.mem_cons_self), List.map_cons, List.append_assoc, List.singleton_append]

lemma step_eq_none : u.step = none ↔ u.rest = [] := by
  unfold step
  split
  · next h => simp [h]
  · next h =>
    simp only [h, reduceCtorEq, iff_false]
    split
    · simp
    · split <;> simp

/-- A key or a length that nothing ends is read to the end of the text. -/
lemma reaches_open (hs : u.stage ≠ .value) (hw : ';' ∉ u.rest) :
    ∃ v, Reaches step u v ∧ v.rest = [] ∧ v.calls = u.calls := by
  cases hr : u.rest with
  | nil => exact ⟨u, .refl, hr, rfl⟩
  | cons c cs =>
    have hc : c ≠ ';' := by
      rintro rfl
      exact hw (by simp [hr])
    have hstep : u.step = some u.copyToken := by simp [step, hr, hc, hs]
    refine ⟨u.copyToken, .single hstep, ?_, rfl⟩
    show u.rest.dropWhile (· ≠ ';') = []
    rw [List.dropWhile_eq_nil_iff]
    intro d hd
    simpa using ne_of_mem_of_not_mem hd hw

/-- A text of records with keys, and something after them that has no `;`, is read as the
calls that the records stand for. -/
theorem run_records {rs : List Record} (junk : CStr) (hk : ∀ r ∈ rs, r.key ≠ [])
    (ht : ';' ∉ tail) :
    ∃ fuel v, run step fuel (start junk (rs.flatMap Record.text ++ tail)) = some v ∧
      v.calls = rs.map fun r => (r.key, r.value) := by
  obtain ⟨v, hv, hrest, hstage, hcalls⟩ :=
    reaches_records (u := start junk (rs.flatMap Record.text ++ tail)) rs rfl rfl
  obtain ⟨e, he, hend, hsame⟩ := reaches_open (u := v) (by rw [hstage]; decide) (by rwa [hrest])
  obtain ⟨fuel, hfuel⟩ := exists_run (hv.trans he) (step_eq_none.2 hend)
  exact ⟨fuel, e, hfuel, hsame.trans (hcalls hk)⟩

/-! ## Values -/

/-- Values are never read with a `;` in front. -/
structure Unmarked (u : Unpack) : Prop where
  token : u.stage = .value → u.token.head? ≠ some ';'
  calls : ∀ c ∈ u.calls, c.2.head? ≠ some ';'

lemma unmarked_start (junk data : CStr) : Unmarked (start junk data) where
  token h := by cases h
  calls _ h := by cases h

lemma Unmarked.ready (h : Unmarked u) (rest : CStr) : Unmarked (u.ready rest) := by
  unfold Unpack.ready
  split
  · exact ⟨fun h => (nomatch h), h.calls⟩
  · exact ⟨fun _ => by simp, h.calls⟩
  · next hs =>
    refine ⟨fun h => (nomatch h), fun c hc => ?_⟩
    rcases List.mem_append.1 hc with hc | hc
    · exact h.calls c hc
    · rw [List.mem_singleton.1 hc]
      exact h.token hs

lemma Unmarked.step (h : Unmarked u) (hv : u.step = some v) : Unmarked v := by
  unfold Unpack.step at hv
  split at hv
  · cases hv
  · next c cs hr =>
    split at hv
    · cases hv
      exact h.ready cs
    · next hc =>
      split at hv
      · next hs =>
        cases hv
        exact ⟨fun he => absurd he hs, h.calls⟩
      · cases hv
        -- A block starts with the character that is not a `;`.
        unfold copyValue
        split
        · exact ⟨fun _ => by simpa [hr] using hc, h.calls⟩
        · refine ⟨fun _ => ?_, h.calls⟩
          rw [hr]
          cases u.dataLen.toNat with
          | zero => simp
          | succ n => simpa using hc

end Unpack

end WebTester.Assarr
