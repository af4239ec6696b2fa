import WebTester.Hive
import WebTester.HiveLexemes

/-!
# The bounds of the tokenizer

The calls of `hive_parser_iteration` that `hive_parse_buf` makes, one after another and for the name
of an included file, and what they read and write. A call keeps to the buffers exactly when the
token that it comes to ends before the data do and is short.
-/
namespace WebTester.Hive.Bytes
open CString Flexval

/-! ## One call -/

/-- The call reads nothing behind the NUL, it returns `NULL` or a pointer into the data, and it
writes fewer bytes than the buffer for the token has. -/
def InBounds (data : CStr) : Prop :=
  ∃ e, hiveParserIteration data = some e ∧ (∀ p ∈ e.pointer, p ≠ [] ∧ p <:+ data) ∧
    e.written < tokenSize

/-- The first token of the data, if there is one, has an end and is short. -/
def Tokenizes (data : CStr) : Prop :=
  ∀ rest, AtToken data rest → ∃ n < tokenSize, Lexeme rest n

section Call

variable {data : CStr} {lines n : ℕ}

lemma begins_word {c : Char} (hbegins : Begins (c :: data)) (hbrace : ¬(c = '{' ∨ c = '}')) :
    ¬Stops (c :: data) := by
  obtain ⟨d, tail, heq, hblank, hcomment⟩ := hbegins
  obtain ⟨rfl, rfl⟩ := List.cons_eq_cons.1 heq
  rintro (h | h | h | h)
  · rw [hblank] at h
    cases h
  · exact hbrace (.inl h)
  · exact hbrace (.inr h)
  · exact hcomment h

/-- A lexeme is taken as it is. -/
lemma tokenAt_of_lexeme (hnul : nul ∉ data) (h : Lexeme data n) :
    ∃ e p, tokenAt lines (data ++ [nul]) = some e ∧ e.pointer = some (p ++ [nul]) ∧
      p <:+ data ∧ e.written = n := by
  cases h with
  | @array w after hw =>
    have hdata : nul ∉ w ++ ']' :: after := fun hmem => hnul (List.mem_cons_of_mem _ hmem)
    obtain ⟨hclosed, htext, hrest⟩ := (takeArray_iff Nat.one_pos hdata).2 ⟨rfl, hw⟩
    rw [List.cons_append, tokenAt, if_pos rfl, arrayLoop_append, Option.map_some]
    refine ⟨_, after, rfl, ?_, ?_, ?_⟩
    · simp [hclosed, hrest]
    · exact ⟨'[' :: (w ++ [']']), by simp⟩
    · simp [hclosed, htext]
  | @unended w hopen =>
    have hdata : nul ∉ w := fun hmem => hnul (List.mem_cons_of_mem _ hmem)
    have hclosed : (takeArray 1 w).closed = false := by
      rw [Bool.eq_false_iff]
      intro hclosed
      obtain ⟨heq, henclosed⟩ := (takeArray_iff Nat.one_pos hdata).1 ⟨hclosed, rfl, rfl⟩
      exact hopen _ _ heq henclosed
    obtain ⟨htext, hrest⟩ := takeArray_unclosed hdata hclosed
    rw [List.cons_append, tokenAt, if_pos rfl, arrayLoop_append, Option.map_some]
    refine ⟨_, [], rfl, ?_, List.nil_suffix, ?_⟩
    · simp [hclosed, hrest]
    · simp [hclosed, htext]
  | @quoted w n after hw =>
    have hdata : nul ∉ w ++ '"' :: after := fun hmem => hnul (List.mem_cons_of_mem _ hmem)
    obtain ⟨text, l, htake, rfl⟩ := (takeQuoted_iff hdata).2 ⟨w, rfl, hw⟩
    have harray : '"' ≠ '[' := by decide
    rw [List.cons_append, tokenAt, if_neg harray, if_pos rfl, quotedLoop_append, htake]
    exact ⟨_, after, rfl, rfl, ⟨'"' :: (w ++ ['"']), by simp⟩, rfl⟩
  | @brace c after hc =>
    have hothers : ¬c = '[' ∧ ¬c = '"' := by
      rcases hc with rfl | rfl
      · decide
      · decide
    rw [List.cons_append, tokenAt, if_neg hothers.1, if_neg hothers.2, if_pos hc]
    exact ⟨_, after, rfl, rfl, List.suffix_cons c after, rfl⟩
  | @word w after hw hothers hne =>
    obtain ⟨c, w, rfl⟩ := List.exists_cons_of_ne_nil hne
    obtain ⟨harray, hquote⟩ := hothers c rfl
    have hbrace : ¬(c = '{' ∨ c = '}') := by
      rintro (hc | hc)
      · exact (isWord_cons.1 hw).1 (.inr (.inl hc))
      · exact (isWord_cons.1 hw).1 (.inr (.inr (.inl hc)))
    have hloop := wordLoop_append (c :: w ++ after)
    rw [takeWord_iff.2 ⟨rfl, hw⟩] at hloop
    rw [List.cons_append, List.cons_append] at hloop ⊢
    rw [tokenAt, if_neg harray, if_neg hquote, if_neg hbrace, hloop]
    exact ⟨_, after, rfl, rfl, List.suffix_append (c :: w) after, rfl⟩

/-- An array is a lexeme whether it is closed or not. -/
lemma lexeme_of_takeArray (hnul : nul ∉ data) :
    Lexeme ('[' :: data) (if (takeArray 1 data).closed then (takeArray 1 data).text.length + 1
      else max 1 (takeArray 1 data).text.length) := by
  cases hclosed : (takeArray 1 data).closed with
  | true =>
    obtain ⟨heq, hw⟩ := (takeArray_iff Nat.one_pos hnul).1 ⟨hclosed, rfl, rfl⟩
    have hlexeme := Lexeme.array (takeArray 1 data).rest hw
    rw [← heq] at hlexeme
    exact hlexeme
  | false =>
    obtain ⟨htext, -⟩ := takeArray_unclosed hnul hclosed
    have hopen : ∀ v after, data = v ++ ']' :: after → ¬Enclosed 1 v := by
      intro v after heq hv
      obtain ⟨hclosed', -⟩ := (takeArray_iff Nat.one_pos hnul).2 ⟨heq, hv⟩
      rw [hclosed] at hclosed'
      cases hclosed'
    rw [htext]
    exact .unended hopen

/-- What is taken with an end is a lexeme. -/
lemma lexeme_of_tokenAt (hnul : nul ∉ data) (hbegins : Begins data) {e : Exit}
    (h : tokenAt lines (data ++ [nul]) = some e) (hpointer : e.pointer ≠ some []) :
    Lexeme data e.written := by
  obtain ⟨c, data, rfl, -⟩ := id hbegins
  have hdata : nul ∉ data := fun hmem => hnul (List.mem_cons_of_mem c hmem)
  rw [List.cons_append, tokenAt] at h
  split_ifs at h with harray hquote hbrace
  · subst harray
    rw [arrayLoop_append, Option.map_some] at h
    obtain rfl := Option.some.inj h
    have hlexeme := lexeme_of_takeArray hdata
    split_ifs at hlexeme ⊢
    · exact hlexeme
    · exact hlexeme
  · subst hquote
    rw [quotedLoop_append] at h
    obtain ⟨t, ht, rfl⟩ := Option.map_eq_some_iff.1 h
    obtain ⟨⟨text, l, rest⟩, htake, rfl⟩ := Option.map_eq_some_iff.1 ht
    cases rest with
    | none => exact absurd rfl hpointer
    | some after =>
      obtain ⟨w, rfl, hw⟩ := (takeQuoted_iff hdata).1 ⟨text, l, htake, rfl⟩
      exact .quoted after hw
  · obtain rfl := Option.some.inj h
    exact .brace data hbrace
  · have hloop := wordLoop_append (c :: data)
    have hcons := takeWord_cons (begins_word hbegins hbrace)
    cases htake : takeWord (c :: data) with
    | mk w after =>
      obtain ⟨heq, hw⟩ := takeWord_iff.1 htake
      rw [htake] at hloop hcons
      rw [List.cons_append] at hloop
      rw [hloop, Option.map_some] at h
      obtain rfl := Option.some.inj h
      have hne : w ≠ [] := by
        rw [(Prod.mk.inj hcons).1]
        exact List.cons_ne_nil _ _
      have hlexeme := Lexeme.word hw (by rw [← heq]; simpa using ⟨harray, hquote⟩) hne
      rw [← heq] at hlexeme
      exact hlexeme

/-- A call is in bounds exactly when its token is. -/
lemma inBounds_iff (hnul : nul ∉ data) : InBounds (data ++ [nul]) ↔ Tokenizes data := by
  have hplace : ∀ rest, (skip .blank data).2 = some rest ↔ AtToken data rest :=
    @skip_iff .blank trivial data hnul
  unfold InBounds Tokenizes
  rw [hiveParserIteration, mainLoop_append, Option.bind_some]
  cases hskip : (skip .blank data).2 with
  | none =>
    have hone : 1 < tokenSize := by decide
    refine iff_of_true ⟨_, rfl, by simp, hone⟩ fun rest hrest => ?_
    rw [(hplace rest).2 hrest] at hskip
    cases hskip
  | some rest =>
    have hrest := (hplace rest).1 hskip
    have hnulrest : nul ∉ rest := fun hmem => hnul (hrest.suffix.subset hmem)
    have hbegins : Begins rest := (skip_spec hskip).2
    dsimp only [Option.map_some]
    constructor
    · rintro ⟨e, he, hpointer, hwritten⟩ rest' hrest'
      obtain rfl : rest = rest' := by
        rw [(hplace rest').2 hrest', Option.some.injEq] at hskip
        exact hskip.symm
      refine ⟨_, hwritten, lexeme_of_tokenAt hnulrest hbegins he fun hnil => ?_⟩
      exact (hpointer [] hnil).1 rfl
    · intro htokens
      obtain ⟨n, hn, hlexeme⟩ := htokens rest hrest
      obtain ⟨e, p, he, hp, hsuffix, rfl⟩ := tokenAt_of_lexeme hnulrest hlexeme
      refine ⟨e, he, fun q hq => ?_, hn⟩
      obtain rfl : p ++ [nul] = q := Option.some.inj (hp.symm.trans hq)
      refine ⟨by simp, ?_⟩
      obtain ⟨before, hbefore⟩ := hsuffix.trans hrest.suffix
      exact ⟨before, by rw [← hbefore, List.append_assoc]⟩

/-- A pointer that is returned in bounds points into the data. -/
lemma suffix_of_inBounds (h : InBounds (data ++ [nul])) {t : Token} {rest : Option CStr}
    (hscan : scan (some data) = .token t lines rest) : ∃ r, rest = some r ∧ r <:+ data := by
  obtain ⟨e, he, hpointer, -⟩ := h
  have hexit := hiveParserIteration_scan data
  rw [he, Option.elim_some] at hexit
  have htoken : e.scan = .token t lines rest := hexit.trans hscan
  unfold Exit.scan at htoken
  cases hp : e.pointer with
  | none => simp [hp] at htoken
  | some p =>
    obtain ⟨hne, hsuffix⟩ := hpointer p hp
    simp only [hp] at htoken
    split_ifs at htoken
    obtain ⟨-, -, rfl⟩ := Scan.token.inj htoken
    refine ⟨p.dropLast, if_neg hne, ?_⟩
    obtain ⟨before, hbefore⟩ := hsuffix
    refine ⟨before, ?_⟩
    rw [← List.dropLast_append_of_ne_nil hne, hbefore, List.dropLast_concat]

end Call

/-! ## The calls of `hive_parse_buf` -/

section Calls

variable {F : Type} (D : Doubles F) (parseFile : CStr → Globals F → Except Stop (Parsed F))
  (dir buf : CStr) (g : Globals F)

/-- The token is a directive that includes a file. -/
def Includes (c : Control) (t : Token) : Prop :=
  (t.array && c.state ≠ .value) = false ∧ t.text = "#include".toList ∧ t.string = false

/-- Where the loop of `hive_parse_buf` comes to: the flags, the current node, the place in the data
and the state of the parser. -/
inductive Reached : Control → ℕ → Option CStr → Globals F → Prop
  | start {value : FlexVal F} : smartValue D "tree root".toList = some value →
      Reached Control.start g.heap.length (some buf)
        { g with heap := g.heap ++ [⟨0, "root".toList, value, [], none⟩], line := 0 }
  | token {c c' : Control} {cur cur' : ℕ} {data rest : Option CStr} {g' : Globals F} {t : Token}
      {lines : ℕ} {a : Action} {heap : Heap F} :
      Reached c cur data g' → scan data = .token t lines rest →
      (t.array && c.state ≠ .value) = false → (t.text.head? = some '#' && !t.string) = false →
      c.step (g'.line + lines) t = .ok (c', a) → a.apply D g'.heap cur = some (heap, cur') →
      Reached c' cur' rest { g' with heap := heap, line := g'.line + lines }
  | included {c : Control} {cur : ℕ} {data rest rest' : Option CStr} {g' g'' : Globals F}
      {t t' : Token} {lines lines' : ℕ} :
      Reached c cur data g' → scan data = .token t lines rest → Includes c t →
      scan rest = .token t' lines' rest' →
      includeFile parseFile dir cur t'.text { g' with line := g'.line + lines + lines' } =
        .ok g'' →
      Reached c cur rest' g''

/-- The places at which `hive_parser_iteration` is called. After an array without an end, where the
name of a file is looked for, it is called at the NUL. With `NULL` it does nothing. -/
inductive Called : Option CStr → Prop
  | loop {c : Control} {cur : ℕ} {data : Option CStr} {g' : Globals F} :
      Reached D parseFile dir buf g c cur data g' → Called data
  | name {c : Control} {cur : ℕ} {data rest : Option CStr} {g' : Globals F} {t : Token}
      {lines : ℕ} :
      Reached D parseFile dir buf g c cur data g' → scan data = .token t lines rest →
      Includes c t → Called rest
  | ended {c : Control} {cur : ℕ} {data rest : Option CStr} {g' : Globals F} {t : Token}
      {text : CStr} {lines lines' : ℕ} :
      Reached D parseFile dir buf g c cur data g' → scan data = .token t lines rest →
      Includes c t → scan rest = .unended text lines' → Called (some [])

/-- All calls keep to the data and to the buffer for the token. -/
def CallsInBounds : Prop := ∀ data, Called D parseFile dir buf g data → InBounds (bytes data)

variable {D parseFile dir buf g}

/-- What is left of the parse at a place that the loop has reached. -/
lemma Reached.parseBuf_eq {c : Control} {cur : ℕ} {data : Option CStr} {g' : Globals F}
    (h : Reached D parseFile dir buf g c cur data g') {fuel : ℕ}
    (hfuel : (data.getD []).length < fuel) :
    parseBuf D parseFile dir buf g =
      parseLoop D parseFile dir g.heap.length fuel c cur data g' := by
  induction h generalizing fuel with
  | start hvalue =>
    rw [parseBuf, hvalue]
    exact parseLoop_fuel (Nat.lt_succ_self _) hfuel
  | @token c c' cur cur' data rest g' t lines a heap _ hscan harray hdirective hstep happly ih =>
    have hlength := scan_length hscan
    rw [@ih (fuel + (data.getD []).length + 1) (by omega), parseLoop, hscan]
    simp only [harray, hdirective, Bool.false_eq_true, if_false, hstep, happly]
    exact parseLoop_fuel (by omega) hfuel
  | @included c cur data rest rest' g' g'' t t' lines lines' _ hscan hincludes hname hfile ih =>
    have hlength := scan_length hscan
    have hlength' := scan_length hname
    obtain ⟨harray, htext, hstring⟩ := hincludes
    have hhead : "#include".toList.head? = some '#' := rfl
    rw [@ih (fuel + (data.getD []).length + 1) (by omega), parseLoop, hscan]
    simp only [harray, Bool.false_eq_true, if_false, htext, hhead, hstring, decide_true,
      Bool.not_false, Bool.and_self, if_true, hname, hfile]
    exact parseLoop_fuel (by omega) hfuel

/-- As long as the calls are in bounds, the loop stays in the data. -/
lemma Reached.text {c : Control} {cur : ℕ} {data : Option CStr} {g' : Globals F}
    (h : Reached D parseFile dir buf g c cur data g') (hbuf : nul ∉ buf)
    (hcalls : ∀ d, Called D parseFile dir buf g (some d) → nul ∉ d → InBounds (d ++ [nul])) :
    ∃ d, data = some d ∧ nul ∉ d := by
  induction h with
  | start => exact ⟨buf, rfl, hbuf⟩
  | token hreached hscan _ _ _ _ ih =>
    obtain ⟨d, rfl, hd⟩ := ih
    obtain ⟨r, rfl, hr⟩ := suffix_of_inBounds (hcalls d (.loop hreached) hd) hscan
    exact ⟨r, rfl, fun hmem => hd (hr.subset hmem)⟩
  | included hreached hscan hincludes hname _ ih =>
    obtain ⟨d, rfl, hd⟩ := ih
    obtain ⟨r, rfl, hr⟩ := suffix_of_inBounds (hcalls d (.loop hreached) hd) hscan
    have hr' : nul ∉ r := fun hmem => hd (hr.subset hmem)
    obtain ⟨r', rfl, hsuffix⟩ :=
      suffix_of_inBounds (hcalls r (.name hreached hscan hincludes) hr') hname
    exact ⟨r', rfl, fun hmem => hr' (hsuffix.subset hmem)⟩

lemma Called.text {data : Option CStr} (h : Called D parseFile dir buf g data) (hbuf : nul ∉ buf)
    (hcalls : ∀ d, Called D parseFile dir buf g (some d) → nul ∉ d → InBounds (d ++ [nul])) :
    ∃ d, data = some d ∧ nul ∉ d := by
  cases h with
  | loop hreached => exact hreached.text hbuf hcalls
  | name hreached hscan _ =>
    obtain ⟨d, rfl, hd⟩ := hreached.text hbuf hcalls
    obtain ⟨r, rfl, hr⟩ := suffix_of_inBounds (hcalls d (.loop hreached) hd) hscan
    exact ⟨r, rfl, fun hmem => hd (hr.subset hmem)⟩
  | ended => exact ⟨[], rfl, List.not_mem_nil⟩

/-- All calls keep to the buffers exactly when at each of them the next token, behind blanks and
comments, ends before the data do and is short. From every place that is reached on, the loop does
what is left of the parse. -/
theorem calls_inBounds_iff (hbuf : nul ∉ buf) :
    (CallsInBounds D parseFile dir buf g ↔
      ∀ data, Called D parseFile dir buf g (some data) → Tokenizes data) ∧
    ∀ c cur data g', Reached D parseFile dir buf g c cur data g' →
      ∀ fuel, (data.getD []).length < fuel → parseBuf D parseFile dir buf g =
        parseLoop D parseFile dir g.heap.length fuel c cur data g' := by
  refine ⟨⟨?_, ?_⟩, fun c cur data g' h fuel hfuel => h.parseBuf_eq hfuel⟩
  · intro h data hdata
    obtain ⟨d, hd, hnul⟩ := hdata.text hbuf fun d hd _ => h (some d) hd
    obtain rfl := Option.some.inj hd
    exact (inBounds_iff hnul).1 (h (some data) hdata)
  · intro h data hdata
    obtain ⟨d, rfl, hnul⟩ := hdata.text hbuf fun d hd hnul => (inBounds_iff hnul).2 (h d hd)
    exact (inBounds_iff hnul).2 (h d hdata)

/-- A parse that includes no files. -/
def noFiles (_ : CStr) (_ : Globals Unit) : Except Stop (Parsed Unit) := .error .fault

/-- The places of a name with a value. -/
def nameValuePlaces : List (Option CStr) := [some "a 1".toList, some " 1".toList, some []]

lemma nameValuePlaces_token {data rest : Option CStr} {t : Token} {lines : ℕ}
    (hdata : data ∈ nameValuePlaces) (hscan : scan data = .token t lines rest) :
    t.text.length = 1 ∧ rest ∈ nameValuePlaces := by
  have hname : scan (some "a 1".toList) =
      .token ⟨['a'], false, false⟩ 0 (some " 1".toList) := by decide +kernel
  have hvalue : scan (some " 1".toList) =
      .token ⟨['1'], false, false⟩ 0 (some []) := by decide +kernel
  simp only [nameValuePlaces, List.mem_cons, List.not_mem_nil, or_false] at hdata ⊢
  obtain rfl | rfl | rfl := hdata
  · rw [hname] at hscan
    obtain ⟨rfl, -, rfl⟩ := Scan.token.inj hscan
    exact ⟨rfl, .inr (.inl rfl)⟩
  · rw [hvalue] at hscan
    obtain ⟨rfl, -, rfl⟩ := Scan.token.inj hscan
    exact ⟨rfl, .inr (.inr rfl)⟩
  · cases hscan

lemma Called.mem_nameValuePlaces {data : Option CStr} {g : Globals Unit}
    (h : Called noDoubles noFiles [] "a 1".toList g data) : data ∈ nameValuePlaces := by
  have hreached : ∀ {c cur data g'}, Reached noDoubles noFiles [] "a 1".toList g c cur data g' →
      data ∈ nameValuePlaces := by
    intro c cur data g' h
    induction h with
    | start => exact List.mem_cons_self
    | token _ hscan _ _ _ _ ih => exact (nameValuePlaces_token ih hscan).2
    | included _ _ _ _ hfile => cases hfile
  cases h with
  | loop h => exact hreached h
  | name h hscan _ => exact (nameValuePlaces_token (hreached h) hscan).2
  | ended => exact List.mem_of_getElem? (i := 2) rfl

/-- A name with a value. -/
theorem calls_inBounds_iff_name_value :
    CallsInBounds noDoubles noFiles [] "a 1".toList ⟨[], 0, []⟩ := by
  refine (@calls_inBounds_iff Unit noDoubles noFiles [] "a 1".toList ⟨[], 0, []⟩ (by decide)).1.2
    fun d hd => ?_
  have hsize : 2 < tokenSize := by decide
  have hplace := hd.mem_nameValuePlaces
  simp only [nameValuePlaces, List.mem_cons, List.not_mem_nil, or_false, Option.some.injEq]
    at hplace
  obtain rfl | rfl | rfl := hplace
  · refine (inBounds_iff (by decide)).1
      ⟨⟨some " 1\x00".toList, ⟨['a'], false, false⟩, 0, false, 2⟩, by decide +kernel, ?_, hsize⟩
    intro p hp
    obtain rfl := Option.some.inj hp
    exact ⟨List.cons_ne_nil _ _, ⟨['a'], rfl⟩⟩
  · refine (inBounds_iff (by decide)).1
      ⟨⟨some [nul], ⟨['1'], false, false⟩, 0, false, 2⟩, by decide +kernel, ?_, hsize⟩
    intro p hp
    obtain rfl := Option.some.inj hp
    exact ⟨List.cons_ne_nil _ _, ⟨[' ', '1'], rfl⟩⟩
  · exact (inBounds_iff List.not_mem_nil).1
      ⟨⟨none, ⟨[], false, false⟩, 0, false, 1⟩, rfl, by simp, by decide⟩

/-- A quoted text without an end: a pointer behind the NUL is returned, and after a backslash
behind the NUL is read. -/
theorem unended_text_leaves_data :
    ¬CallsInBounds noDoubles noFiles [] "\"".toList ⟨[], 0, []⟩ ∧
      hiveParserIteration "\"\x00".toList =
        some ⟨some [], ⟨[], true, false⟩, 0, false, 1⟩ ∧
      hiveParserIteration "\"\\\x00".toList = none := by
  have hexit : hiveParserIteration "\"\x00".toList =
      some ⟨some [], ⟨[], true, false⟩, 0, false, 1⟩ := rfl
  refine ⟨fun h => ?_, hexit, rfl⟩
  obtain ⟨value, hvalue⟩ : ∃ value, smartValue noDoubles "tree root".toList = some value :=
    ⟨_, rfl⟩
  obtain ⟨e, he, hpointer, -⟩ := h _ (.loop (.start hvalue))
  obtain rfl := Option.some.inj (hexit.symm.trans he)
  exact (hpointer [] rfl).1 rfl

end Calls

end WebTester.Hive.Bytes
