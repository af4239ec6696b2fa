import WebTester.Packed

/-!
# When packed arrays are read back

A packed array is read back as it was exactly when no value starts with a `;`, which the
reader takes for the end of the value. It reads every text to its end, except where a
value is announced with the length zero and is not empty: it then copies nothing, again
and again.
-/
namespace WebTester.Assarr
open CString Loop Unpack

/-! ## Round trip -/

/-- An entry that is read back when its length is written as `len`. -/
structure Legible (len : CStr) (e : CStr × CStr) : Prop where
  key_ne : e.1 ≠ []
  key_clean : ';' ∉ e.1
  hash : 0 ≤ assarrHash e.1
  len_clean : ';' ∉ len
  len_eq : atol len = e.2.length
  head : e.2.head? ≠ some ';'

/-- A legible entry as a record. -/
def recordOf (len : CStr) (e : CStr × CStr) (h : Legible len e) : Record where
  key := e.1
  length := len
  blocks := if e.2 = [] then [] else [e.2]
  key_clean := h.key_clean
  length_clean := h.len_clean
  blocks_length := by
    intro b hb
    split at hb
    · cases hb
    · rw [List.mem_singleton.1 hb, h.len_eq]
  blocks_head := by
    intro b hb
    split at hb
    · cases hb
    · next hne =>
      obtain ⟨c, cs, hcs⟩ := List.exists_cons_of_ne_nil hne
      refine ⟨c, cs, (List.mem_singleton.1 hb).trans hcs, ?_⟩
      rintro rfl
      exact h.head (by simp [hcs])

/-- Legible entries are written as records. -/
lemma exists_records {es : List (CStr × CStr)} (len : CStr × CStr → CStr)
    (h : ∀ e ∈ es, Legible (len e) e) :
    ∃ rs : List Record, es.flatMap (fun e => packEntry (len e) e) = rs.flatMap Record.text ∧
      (rs.map fun r => (r.key, r.value)) = es := by
  induction es with
  | nil => exact ⟨[], rfl, rfl⟩
  | cons e es ih =>
    obtain ⟨k, v⟩ := e
    rw [List.forall_mem_cons] at h
    obtain ⟨rs, htext, hcalls⟩ := ih h.2
    refine ⟨recordOf _ (k, v) h.1 :: rs, ?_, ?_⟩
    · rw [List.flatMap_cons, List.flatMap_cons, htext]
      congr 1
      unfold Record.text recordOf
      by_cases h : v = [] <;> simp [h]
    · rw [List.map_cons, hcalls]
      congr 1
      unfold Record.value recordOf
      by_cases h : v = [] <;> simp [h]

/-- Legible entries with distinct keys are read back, whatever follows without a `;`. -/
theorem unpack_legible {es : List (CStr × CStr)} {tail : CStr} (len : CStr × CStr → CStr)
    (junk : CStr) (hn : (es.map Prod.fst).Nodup) (h : ∀ e ∈ es, Legible (len e) e)
    (ht : ';' ∉ tail) :
    ∃ fuel b, (∀ m, fuel ≤ m → assarrUnpack m junk
        (es.flatMap (fun e => packEntry (len e) e) ++ tail) .create = some b) ∧
      ∀ key, b.getValue key = es.lookup key := by
  obtain ⟨rs, htext, hcalls⟩ := exists_records len h
  have hkeys : ∀ r ∈ rs, r.key ≠ [] := by
    intro r hr
    have he : (r.key, r.value) ∈ es := by
      rw [← hcalls]
      exact List.mem_map_of_mem (f := fun r : Record => (r.key, r.value)) hr
    exact (h _ he).key_ne
  obtain ⟨fuel, v, hrun, hv⟩ := run_records junk hkeys ht
  rw [hcalls] at hv
  obtain ⟨b, hb⟩ := Option.isSome_iff_exists.1
    (AssArr.setAll_isSome (a := .create).2 fun e he => (h e he).hash)
  refine ⟨fuel, b, fun m hm => ?_, AssArr.getValue_setAll_create hn hb⟩
  unfold assarrUnpack
  rw [htext, run_mono hrun hm, Option.bind_some, hv, hb]

/-- One entry is read back. -/
lemma unpack_single {k v len tail : CStr} (junk : CStr) (h : Legible len (k, v)) (ht : ';' ∉ tail) :
    ∃ fuel b, (∀ m, fuel ≤ m →
        assarrUnpack m junk (packEntry len (k, v) ++ tail) .create = some b) ∧
      b.getValue k = some v := by
  obtain ⟨fuel, b, hb, hget⟩ := unpack_legible (fun _ => len) junk
    (show ([(k, v)].map Prod.fst).Nodup by simp) (List.forall_mem_singleton.2 h) ht
  rw [List.flatMap_singleton] at hb
  exact ⟨fuel, b, hb, (hget k).trans List.lookup_cons_self⟩

lemma semicolon_notMem_decimal (n : ℕ) : ';' ∉ decimal n := by
  intro h
  exact absurd (isDigit_of_mem_decimal h) (by decide)

lemma legible_decimal {k v : CStr} (hk : k ≠ []) (hc : ';' ∉ k) (hh : 0 ≤ assarrHash k)
    (hlen : v.length < 2 ^ 63) (hv : v.head? ≠ some ';') :
    Legible (decimal v.length) (k, v) :=
  ⟨hk, hc, hh, semicolon_notMem_decimal _, atol_decimal hlen, hv⟩

/-- Packing the array of a map and reading it into an empty array gives the map again. -/
def RoundTrip (junk : CStr) (kvs : List (CStr × CStr)) : Prop :=
  ∃ a, AssArr.setAll kvs .create = some a ∧ ∃ fuel b,
    assarrUnpack fuel junk (assarrPack a) .create = some b ∧
      ∀ key, b.getValue key = kvs.lookup key

/-- What was read back never starts with a `;`. -/
lemma head_of_unpack {fuel : ℕ} {junk data key value : CStr} {b : AssArr CStr}
    (h : assarrUnpack fuel junk data .create = some b) (hb : b.getValue key = some value) :
    value.head? ≠ some ';' := by
  unfold assarrUnpack at h
  rw [Option.bind_eq_some_iff] at h
  obtain ⟨u, hu, hset⟩ := h
  have hunmarked : Unmarked u :=
    (reaches_of_run hu).1.invariant (fun _ _ h => h.step) (unmarked_start junk data)
  rw [AssArr.getValue_setAll hset, AssArr.getValue_create, Option.or_none] at hb
  exact hunmarked.calls _ (List.mem_reverse.1 (Assoc.mem_of_lookup hb))

/-- Values that start with a `;` are the only ones that do not come back, as long as `%u`
can print the lengths. The keys must be such that the array can be built. -/
theorem roundTrip_iff_head_ne (junk : CStr) {kvs : List (CStr × CStr)}
    (hn : (kvs.map Prod.fst).Nodup) (hk : ∀ kv ∈ kvs, kv.1 ≠ [] ∧ ';' ∉ kv.1) :
    (RoundTrip junk kvs →
      ∀ kv ∈ kvs, 0 ≤ assarrHash kv.1 ∧ kv.2.head? ≠ some ';') ∧
    ((∀ kv ∈ kvs, 0 ≤ assarrHash kv.1 ∧ kv.2.head? ≠ some ';') →
      (∀ kv ∈ kvs, kv.2.length < 2 ^ 32) → RoundTrip junk kvs) := by
  constructor
  · rintro ⟨a, ha, fuel, b, hb, hget⟩ kv hkv
    have hvalue : b.getValue kv.1 = some kv.2 := by
      rw [hget]
      exact (Assoc.lookup_eq_some_iff_mem hn).2 hkv
    exact ⟨AssArr.setAll_isSome.1 (by rw [ha]; rfl) kv hkv, head_of_unpack hb hvalue⟩
  · intro hclean hlen
    obtain ⟨a, ha⟩ := Option.isSome_iff_exists.1
      (AssArr.setAll_isSome (a := .create).2 fun kv hkv => (hclean kv hkv).1)
    have hmem : ∀ e ∈ a.entries, e ∈ kvs := by
      intro e he
      rw [AssArr.mem_entries, AssArr.getValue_setAll_create hn ha] at he
      exact Assoc.mem_of_lookup he
    have hlegible : ∀ e ∈ a.entries, Legible (decimal (e.2.length % 2 ^ 32)) e := by
      intro e he
      have hkv := hmem e he
      have hsmall := hlen e hkv
      rw [Nat.mod_eq_of_lt hsmall]
      exact legible_decimal (hk e hkv).1 (hk e hkv).2 (hclean e hkv).1 (by omega) (hclean e hkv).2
    obtain ⟨fuel, b, hrun, hget⟩ :=
      unpack_legible _ junk a.nodup_entries hlegible List.not_mem_nil
    refine ⟨a, ha, fuel, b, ?_, fun key => ?_⟩
    · have h := hrun fuel le_rfl
      rwa [List.append_nil] at h
    · rw [hget, AssArr.lookup_entries, AssArr.getValue_setAll_create hn ha]

theorem roundTrip_nested : RoundTrip []
    [("a".toList, "b;1;;".toList), ("c".toList, []), ("d".toList, "1".toList)] :=
  (roundTrip_iff_head_ne [] (by decide) (by decide)).2 (by decide) (by decide)

/-- The array of `a` and `;x` is packed as `a;2;;x;`, and `a` is read back empty. -/
theorem not_roundTrip_semicolon : ¬RoundTrip [] [("a".toList, ";x".toList)] := by
  rintro ⟨a, -, fuel, b, hb, hget⟩
  exact head_of_unpack hb (hget "a".toList) rfl

/-! ## Termination -/

/-- Records, a key and a length that is read as zero, and then no `;`. -/
def Hangs (data : CStr) : Prop :=
  ∃ (rs : List Record) (k l : CStr) (c : Char) (rest : CStr),
    data = rs.flatMap Record.text ++ (k ++ ';' :: (l ++ ';' :: c :: rest)) ∧
      ';' ∉ k ∧ ';' ∉ l ∧ atol l = 0 ∧ c ≠ ';'

lemma Hangs.of_record {data : CStr} (r : Record) (h : Hangs data) : Hangs (r.text ++ data) := by
  obtain ⟨rs, k, l, c, rest, rfl, hk, hl, h0, hc⟩ := h
  refine ⟨r :: rs, k, l, c, rest, ?_, hk, hl, h0, hc⟩
  rw [List.flatMap_cons, List.append_assoc]

/-- The machine copies no characters of a value. -/
structure Stalled (u : Unpack) : Prop where
  stage : u.stage = .value
  len : u.dataLen = 0
  rest : ∃ c cs, u.rest = c :: cs ∧ c ≠ ';'

lemma Stalled.step {u : Unpack} (h : Stalled u) : ∃ v, u.step = some v ∧ Stalled v := by
  obtain ⟨c, cs, hr, hc⟩ := h.rest
  refine ⟨u.copyValue, by simp [Unpack.step, hr, hc, h.stage], ?_⟩
  unfold copyValue
  rw [h.len, if_neg (lt_irrefl 0)]
  exact ⟨h.stage, rfl, c, cs, by simpa using hr, hc⟩

theorem not_ends_of_hangs (junk : CStr) {data : CStr} (h : Hangs data) :
    ¬Ends Unpack.step (start junk data) := by
  obtain ⟨rs, k, l, c, rest, rfl, hk, hl, h0, hc⟩ := h
  intro hends
  obtain ⟨v, hv, hrest, hstage, -⟩ := reaches_records (u := start junk _) rs rfl rfl
  have hlength := (hends.reaches hv).reaches (reaches_key hrest hk hstage)
  have hvalue := hlength.reaches (reaches_length rfl hl rfl rfl)
  exact not_ends (fun _ => Stalled.step) ⟨rfl, h0, c, rest, rfl, hc⟩ hvalue

lemma ends_of_rest {u : Unpack} (h : u.rest = []) : Ends Unpack.step u :=
  ⟨0, by simp [run, step_eq_none.2 h]⟩

/-- Reading a value, the machine comes to the end of the text, to the `;` after a number
of blocks, or nowhere. -/
lemma value_cases (u : Unpack) (hs : u.stage = .value) :
    Ends Unpack.step u ∨
    (∃ (bs : List CStr) (tail : CStr), u.rest = bs.flatten ++ ';' :: tail ∧
      (∀ b ∈ bs, (b.length : ℤ) = u.dataLen) ∧ ∀ b ∈ bs, ∃ c cs, b = c :: cs ∧ c ≠ ';') ∨
    u.dataLen = 0 ∧ ∃ c cs, u.rest = c :: cs ∧ c ≠ ';' := by
  induction hn : u.rest.length using Nat.strong_induction_on generalizing u with
  | _ n ih =>
    cases hr : u.rest with
    | nil => exact .inl (ends_of_rest hr)
    | cons c cs =>
      by_cases hc : c = ';'
      · exact .inr (.inl ⟨[], cs, by simp [hc], by simp, by simp⟩)
      have hstep := step_block hr hc hs
      unfold copyValue at hstep
      rcases lt_trichotomy u.dataLen 0 with hneg | hzero | hpos
      · rw [if_pos hneg] at hstep
        exact .inl (.of_reaches (.single hstep) (ends_of_rest rfl))
      · exact .inr (.inr ⟨hzero, c, cs, rfl, hc⟩)
      · rw [if_neg (by omega), hr] at hstep
        have hlen : ((c :: cs).drop u.dataLen.toNat).length < n := by
          rw [List.length_drop, ← hn, hr]
          simp only [List.length_cons]
          omega
        rcases ih _ hlen { u with
            rest := (c :: cs).drop u.dataLen.toNat, token := (c :: cs).take u.dataLen.toNat }
          hs rfl with hends | ⟨bs, tail, hbs, hl, hh⟩ | ⟨hzero, -⟩
        · exact .inl (.of_reaches (.single hstep) hends)
        · -- The text goes on after the block, which is therefore complete.
          have hlong : u.dataLen.toNat < (c :: cs).length := by
            by_contra hshort
            dsimp only at hbs
            rw [List.drop_eq_nil_of_le (by omega)] at hbs
            simp at hbs
          refine .inr (.inl ⟨(c :: cs).take u.dataLen.toNat :: bs, tail, ?_, ?_, ?_⟩)
          · rw [List.flatten_cons, List.append_assoc, ← hbs, List.take_append_drop]
          · rw [List.forall_mem_cons]
            refine ⟨?_, hl⟩
            rw [List.length_take]
            omega
          · rw [List.forall_mem_cons]
            obtain ⟨m, hm⟩ : ∃ m, u.dataLen.toNat = m + 1 := ⟨u.dataLen.toNat - 1, by omega⟩
            exact ⟨⟨c, cs.take m, by rw [hm, List.take_succ_cons], hc⟩, hh⟩
        · dsimp only at hzero
          omega

/-- From a place where a key is expected, the machine ends or the rest hangs it. -/
lemma ends_or_hangs (u : Unpack) (hs : u.stage = .key) : Ends Unpack.step u ∨ Hangs u.rest := by
  induction hn : u.rest.length using Nat.strong_induction_on generalizing u with
  | _ n ih =>
    by_cases hkey : ';' ∈ u.rest
    · obtain ⟨k, t, hr, hk⟩ := List.eq_append_cons_of_mem hkey
      have hreads := reaches_key hr hk hs
      by_cases hlength : ';' ∈ t
      · obtain ⟨l, t, rfl, hl⟩ := List.eq_append_cons_of_mem hlength
        have hreads := hreads.trans (reaches_length rfl hl rfl rfl)
        rcases value_cases ⟨t, .value, [], if k = [] then u.token else k, atol l, u.calls⟩ rfl with
          hends | ⟨bs, tail, ht, hlen, hhead⟩ | ⟨hzero, c, cs, ht, hc⟩
        · exact .inl (.of_reaches hreads hends)
        · obtain rfl : t = bs.flatten ++ ';' :: tail := ht
          let r : Record := ⟨k, l, bs, hk, hl, hlen, hhead⟩
          have htext : u.rest = r.text ++ tail := by
            rw [hr]
            simp [r, Record.text, packEntry]
          obtain ⟨v, hv, hvr, hvs, -⟩ := reaches_record r htext hs
          have hshort : v.rest.length < n := by
            rw [← hn, hvr, hr]
            simp only [List.length_append, List.length_cons]
            omega
          rw [htext, ← hvr]
          exact (ih _ hshort v hvs rfl).imp (.of_reaches hv) (.of_record r)
        · obtain rfl : t = c :: cs := ht
          exact .inr ⟨[], k, l, c, cs, hr, hk, hl, hzero, hc⟩
      · obtain ⟨v, hv, hend, -⟩ := reaches_open (u := { u with
            rest := t, stage := .length, token := [], key := if k = [] then u.token else k })
          (by simp) hlength
        exact .inl (.of_reaches (hreads.trans hv) (ends_of_rest hend))
    · obtain ⟨v, hv, hend, -⟩ := reaches_open (by rw [hs]; decide) hkey
      exact .inl (.of_reaches hv (ends_of_rest hend))

/-- The loop of `assarr_unpack` ends on exactly the texts that have no value of length zero
that is not empty where the machine expects a value. -/
theorem ends_iff_not_hangs (junk data : CStr) :
    Ends Unpack.step (start junk data) ↔ ¬Hangs data := by
  constructor
  · intro hends hhangs
    exact not_ends_of_hangs junk hhangs hends
  · intro h
    exact (ends_or_hangs _ rfl).resolve_right h

/-- `a;0;x` announces an empty value and gives another one. -/
theorem not_ends_zero_length : ¬Ends Unpack.step (start [] "a;0;x".toList) :=
  not_ends_of_hangs [] ⟨[], "a".toList, "0".toList, 'x', [], rfl, by decide, by decide, by decide,
    by decide⟩

end WebTester.Assarr
