import WebTester.Authorization
import WebTester.CmdParser
import WebTester.LrvmOptions
import WebTester.Md5Crypt

/-!
# The key of a process

The server gives every process a hash and keeps a key that is made of it. LRVM gets the hash on its
command line, makes the key in the same way, and sends the number and the key of the process before
anything else. No command of it is refused then.
-/
namespace WebTester.Librun.Handshake
open CString Flexval Md5 Serialization Transition

/-- `RUN_HASH_LENGTH`. -/
def runHashLength : ℕ := 64

/-- The salt in `generate_security_hash`. -/
def hashSalt : CStr := "wl3mw0sq".toList

/-- `SECURITY_MAGICK`, in both programs. -/
def securityMagick : CStr := "asdadfad".toList

/-- `snprintf` of the hash and the number into a buffer of this size. -/
def securityText (size : ℕ) (hash : CStr) (unique : ℤ) : CStr :=
  ("##".toList ++ hash ++ '@' :: printLong unique ++ "##".toList).take (size - 1)

/-- `generate_security_hash`, with the random time `t`. -/
def generateSecurityHash (ctx ctx1 : Ctx) (t : ℤ) : Option CStr :=
  md5Crypt ctx ctx1 ((printLong t).take (runHashLength - 1)) hashSalt

/-- `fill_security_info`: the hash and the key of a process. -/
def fillSecurityInfo (ctx ctx1 : Ctx) (t unique : ℤ) : Option (CStr × CStr) := do
  let hash ← generateSecurityHash ctx ctx1 t
  let dummy ← md5Crypt ctx ctx1 (securityText (runHashLength + 64) hash unique) securityMagick
  some (hash, dummy.drop 8)

/-- `validate_security` of LRVM: what is in `security` afterwards. -/
def validateSecurity (ctx ctx1 : Ctx) (s : CStr) (unique : ℤ) : Option CStr := do
  let dummy ← md5Crypt ctx ctx1 (securityText 128 s unique) securityMagick
  some (dummy.drop 8)

/-- The lines that LRVM sends first, by `lrvm_ipc_send_command`. -/
def firstLines (ctx ctx1 : Ctx) (o : LrvmOptions.Options) : Option (List CStr) := do
  let security ← validateSecurity ctx ctx1 o.security (atol o.unique)
  some ["unique ".toList ++ o.unique, "security ".toList ++ security, "validate ".toList]

/-- The arguments of a line, as the server reads it; a `NULL` stands behind them. -/
def arguments (line : CStr) : Option (List CStr) :=
  (Cmd.parseBuf line).map fun r => r.1.filterMap id

/-- The numbers of arguments, the name among them, that the handlers accept. -/
def arity : Command → ℕ → Bool
  | .unique | .security | .taskpid | .exitCode | .termsig | .stopsig => (· == 2)
  | .finalize | .cont | .base => (· == 1)
  | .execError => (· ≤ 2)
  | .validate => (· ≤ 1)

/-! ## Words of a line -/

/-- A character that is not a gap and has no meaning of its own. -/
def plainChar (c : Char) : Bool := !Cmd.isGap c && c != '\\' && c != Hive.nul && c != '"'

/-- A word that the server reads as it is written. -/
structure Word (w : CStr) : Prop where
  nonempty : w ≠ []
  length : w.length < Cmd.tokenSize
  plain : w.all plainChar = true

lemma Word.char {w : CStr} (hw : Word w) {c : Char} (hc : c ∈ w) :
    Cmd.isGap c = false ∧ c ≠ '\\' ∧ c ≠ Hive.nul ∧ c ≠ '"' := by
  have hplain := List.all_eq_true.1 hw.plain c hc
  simpa [plainChar, and_assoc] using hplain

lemma takeWord_append {w rest : CStr} (hw : ∀ c ∈ w, Cmd.isGap c = false ∧ c ≠ '\\')
    (hrest : ∀ c ∈ rest.head?, Cmd.isGap c = true) :
    Cmd.takeWord (w ++ rest) = some (w, some rest) := by
  induction w with
  | nil =>
    cases rest with
    | nil => rfl
    | cons c rest =>
      rw [List.nil_append, Cmd.takeWord.eq_def]
      exact if_pos (hrest c rfl)
  | cons c w ih =>
    obtain ⟨hgap, hslash⟩ := hw c List.mem_cons_self
    rw [List.cons_append, Cmd.takeWord.eq_def]
    simp only [hgap, hslash, ih fun d hd => hw d (List.mem_cons_of_mem _ hd), Option.map_some,
      Bool.false_eq_true, if_false]

lemma parserIterator_word {w rest : CStr} (hw : Word w)
    (hrest : ∀ c ∈ rest.head?, Cmd.isGap c = true) :
    Cmd.parserIterator (some (w ++ rest)) = .token w (some rest) := by
  have htake := takeWord_append (fun c hc => ⟨(hw.char hc).1, (hw.char hc).2.1⟩) hrest
  have hnul : w.takeWhile (· ≠ Hive.nul) = w :=
    List.takeWhile_eq_self_iff.2 fun c hc => decide_eq_true (hw.char hc).2.2.1
  have hne := hw.nonempty
  have hlength := hw.length
  obtain ⟨c, cs, rfl⟩ := List.exists_cons_of_ne_nil hne
  obtain ⟨hgap, -, hc, hquote⟩ := hw.char List.mem_cons_self
  have hskip : Cmd.skip (c :: cs ++ rest) = some (c :: (cs ++ rest)) := by
    rw [List.cons_append, Cmd.skip, if_neg hc, hgap, if_neg Bool.false_ne_true]
  rw [Cmd.parserIterator, hskip]
  dsimp only
  rw [if_neg hquote, ← List.cons_append, htake, Cmd.finish, if_pos hlength, if_neg hne, hnul]

/-- What may stand behind the last word. -/
def Tail (t : CStr) : Prop :=
  Cmd.parserIterator (some t) = .finished ∧ ∀ c ∈ t.head?, Cmd.isGap c = true

lemma tail_nil : Tail [] := ⟨rfl, fun _ h => nomatch h⟩

lemma tail_space : Tail " ".toList := by
  refine ⟨Cmd.parserIterator_space [], fun c hc => ?_⟩
  obtain rfl := Option.some.inj hc
  exact Cmd.isGap_space

open LrvmOptions (spaced spaced_cons)

lemma parseLoop_words {ws : List CStr} (hws : ∀ w ∈ ws, Word w) {t : CStr} (ht : Tail t)
    (fuel : ℕ) (hfuel : ws.length < fuel) (argv : List (Option CStr))
    (hcount : argv.length + ws.length < 2 ^ 31) :
    Cmd.parseLoop fuel (some (spaced ws ++ t)) argv = some (argv ++ ws.map some) := by
  induction ws generalizing fuel argv with
  | nil =>
    obtain ⟨fuel, rfl⟩ := Nat.exists_eq_add_one.2 hfuel
    have hend : Cmd.parserIterator (some (spaced [] ++ t)) = .finished := ht.1
    rw [Cmd.parseLoop, hend, List.map_nil, List.append_nil]
  | cons w ws ih =>
    obtain ⟨fuel, rfl⟩ := Nat.exists_eq_add_one.2 (Nat.zero_lt_of_lt hfuel)
    obtain ⟨hw, hws⟩ := List.forall_mem_cons.1 hws
    have hgap : ∀ c ∈ (spaced ws ++ t).head?, Cmd.isGap c = true := by
      cases ws with
      | nil => exact ht.2
      | cons v ws =>
        intro c hc
        rw [spaced_cons] at hc
        obtain rfl := Option.some.inj hc
        exact Cmd.isGap_space
    rw [List.length_cons] at hfuel hcount
    have happend : Cmd.strarrAppend argv (some w) = some (argv ++ [some w]) := if_pos (by omega)
    rw [spaced_cons, Cmd.parseLoop, Cmd.parserIterator_space, parserIterator_word hw hgap]
    dsimp only
    rw [happend, Option.bind_eq_bind, Option.bind_some, ih hws _ (by omega) _
      (by rw [List.length_append, List.length_singleton]; omega), List.append_assoc]
    rfl

lemma length_le_spaced (ws : List CStr) : ws.length ≤ (spaced ws).length := by
  induction ws with
  | nil => exact le_rfl
  | cons w ws ih =>
    have hcons := congrArg List.length (spaced_cons w ws [])
    rw [List.append_nil, List.append_nil, List.length_cons, List.length_append] at hcons
    rw [List.length_cons]
    omega

/-- A line of words is read as these words. -/
lemma arguments_words {w : CStr} {ws : List CStr} (hw : Word w) (hws : ∀ w ∈ ws, Word w) {t : CStr}
    (ht : Tail t) (hcount : ws.length + 2 < 2 ^ 31) :
    arguments (w ++ (spaced ws ++ t)) = some (w :: ws) := by
  have hfirst (fuel : ℕ) : Cmd.parseLoop (fuel + 1) (some (w ++ (spaced ws ++ t))) [] =
      Cmd.parseLoop (fuel + 1) (some (spaced (w :: ws) ++ t)) [] := by
    rw [spaced_cons, Cmd.parseLoop, Cmd.parseLoop, Cmd.parserIterator_space]
  have hlength := length_le_spaced ws
  have hpos := List.length_pos_iff.2 hw.nonempty
  have hloop := parseLoop_words (List.forall_mem_cons.2 ⟨hw, hws⟩) ht
    ((w ++ (spaced ws ++ t)).length + 1)
    (by rw [List.length_append, List.length_append, List.length_cons]; omega) []
    (by rw [List.length_cons, List.length_nil]; omega)
  have happend : Cmd.strarrAppend ((w :: ws).map some) none = some ((w :: ws).map some ++ [none]) :=
    if_pos (by rw [List.length_map, List.length_cons]; omega)
  rw [arguments, Cmd.parseBuf, hfirst, hloop, List.nil_append, Option.bind_eq_bind,
    Option.bind_some, happend]
  simp

/-! ## Keys -/

lemma plain_itoa64 : ('y' :: itoa64.toList).all plainChar = true := by
  unfold plainChar Cmd.isGap
  decide

lemma mem_md5To64 {v : Md5.Word} {n : ℕ} {c : Char} (h : c ∈ md5To64 v n) : c ∈ itoa64.toList := by
  induction n generalizing v with
  | zero => cases h
  | succ n ih =>
    rcases List.mem_cons.1 h with rfl | h
    · exact Vector.mem_toList_iff.2 (Vector.getElem_mem (and_lt v))
    · exact ih h

lemma mem_writeDigest {d : Digest} {c : Char} (h : c ∈ writeDigest d) : c ∈ itoa64.toList := by
  simp only [writeDigest, List.mem_append, or_assoc] at h
  rcases h with h | h | h | h | h | h
  all_goals exact mem_md5To64 h

/-- A key is one word of 23 characters. -/
lemma key_of_md5Crypt (ctx ctx1 : Ctx) {pw : CStr} (hpw : pw.length < 2 ^ 31) {salt : CStr}
    (hsalt : (trueSalt salt).length = 8) : ∃ out, md5Crypt ctx ctx1 pw salt = some out ∧
      out.drop 8 = 'y' :: writeDigest (cryptDigest (bytes pw) (bytes (trueSalt salt))) := by
  refine ⟨_, md5Crypt_eq ctx ctx1 salt hpw, ?_⟩
  rw [← hsalt]
  exact List.drop_left

lemma word_key (d : Digest) : Word ('y' :: writeDigest d) := by
  refine ⟨List.cons_ne_nil _ _, ?_, ?_⟩
  · rw [List.length_cons, length_writeDigest]
    decide
  · apply List.all_eq_true.2
    intro c hc
    apply List.all_eq_true.1 plain_itoa64 c
    rcases List.mem_cons.1 hc with rfl | hc
    · exact List.mem_cons_self
    · exact List.mem_cons_of_mem _ (mem_writeDigest hc)

lemma length_securityText_le (size : ℕ) (hash : CStr) (unique : ℤ) :
    (securityText size hash unique).length ≤ size - 1 := List.length_take_le _ _

/-- What the server makes for a process, and what LRVM makes of it. -/
lemma fillSecurityInfo_eq (ctx ctx1 ctx' ctx1' : Ctx) (t u : ℤ) : ∃ (hash : CStr) (d : Digest),
    fillSecurityInfo ctx ctx1 t u = some (hash, 'y' :: writeDigest d) ∧
      validateSecurity ctx' ctx1' hash u = some ('y' :: writeDigest d) := by
  have htime : ((printLong t).take (runHashLength - 1)).length < 2 ^ 31 :=
    (List.length_take_le _ _).trans_lt (by decide)
  have hhash := md5Crypt_eq ctx ctx1 hashSalt htime
  generalize trueSalt hashSalt ++ _ = hash at hhash
  have htext : (securityText 128 hash u).length < 2 ^ 31 :=
    (length_securityText_le 128 hash u).trans_lt (by decide)
  have hsalt : (trueSalt securityMagick).length = 8 := by decide
  obtain ⟨out, hout, hkey⟩ := key_of_md5Crypt ctx ctx1 htext hsalt
  obtain ⟨out', hout', hkey'⟩ := key_of_md5Crypt ctx' ctx1' htext hsalt
  refine ⟨hash, cryptDigest (bytes (securityText 128 hash u)) (bytes (trueSalt securityMagick)),
    ?_, ?_⟩
  · rw [fillSecurityInfo, generateSecurityHash, hhash, Option.bind_eq_bind, Option.bind_some,
      show runHashLength + 64 = 128 from rfl, hout, Option.bind_some, hkey]
  · rw [validateSecurity, hout', Option.bind_eq_bind, Option.bind_some, hkey']

/-! ## Commands of a client that has shown the key -/

variable {n : ℕ} {c : Client} {belts : List Process} {p : Process} {j : ℕ}

lemma procHandler_ok (act : Process → Process) (hj : processInfoByUnique belts c.unique = some j)
    (hp : belts[j]? = some p) (hkey : p.securityKey = c.securityKey) :
    procHandler true act c belts = (belts.modify j act, okAnswer) := by
  have hsame : ¬belts[j]?.map Process.securityKey ≠ some c.securityKey := by
    rw [hp, Option.map_some, hkey]
    exact fun h => h rfl
  rw [procHandler]
  simp only [Bool.not_true, Bool.false_eq_true, if_false, hj]
  exact if_neg hsame

/-- Every command but the two that store the credentials goes through the same check. -/
lemma execute_handler (cfg : Profile) (acc : Accounting) (s : Ipc n) (i : Fin n)
    (argv : List CStr) {cmd : Command} (hname : Command.ofName (argv.headD []) = some cmd)
    (hunique : cmd ≠ .unique) (hsecurity : cmd ≠ .security) :
    ∃ act, s.execute cfg acc i argv =
        s.withBelts i (procHandler (arity cmd argv.length) act (s.clients i) s.belts) ∧
      (cmd = .validate → act = id) := by
  unfold Ipc.execute
  rw [hname]
  cases cmd with
  | unique => exact absurd rfl hunique
  | security => exact absurd rfl hsecurity
  | validate => exact ⟨id, rfl, fun _ => rfl⟩
  | _ => exact ⟨_, rfl, nofun⟩

lemma lastArgument_append {cmd : Command} (history : List (List CStr)) {others : List (List CStr)}
    (h : ∀ argv ∈ others, Command.ofName (argv.headD []) ≠ some cmd) :
    lastArgument cmd (history ++ others) = lastArgument cmd history := by
  induction others using List.reverseRecOn with
  | nil => rw [List.append_nil]
  | append_singleton others argv ih =>
    have hargv := h argv (List.mem_append_right _ List.mem_cons_self)
    rw [← List.append_assoc, lastArgument_concat, if_neg fun hc => hargv hc.1]
    exact ih fun a ha => h a (List.mem_append_left _ ha)

/-! ## The first lines -/

lemma plainChar_digit {c : Char} (h : c.isDigit = true ∨ c = '-') : plainChar c = true := by
  have hrange : 33 ≤ c.toNat ∧ c.toNat < 127 := by
    rcases h with h | rfl
    · have hdigit := Char.isDigit_iff_toNat.1 h
      simp only [Char.reduceToNat] at hdigit
      omega
    · decide
  have hschar : schar c = c.toNat := Int.bmod_eq_of_le (by omega) (by omega)
  have hgap : Cmd.isGap c = false := by
    unfold Cmd.isGap
    rw [hschar, Bool.or_eq_false_iff, decide_eq_false_iff_not, decide_eq_false_iff_not]
    omega
  have hne : ∀ {d : Char}, (d.isDigit || d == '-') = false → c ≠ d := LrvmOptions.ne_of_digit h
  simp (disch := decide) [plainChar, hgap, hne]

lemma word_name {w : CStr} (h : w ∈ ["unique".toList, "security".toList, "validate".toList]) :
    Word w := by
  have hnames : ["unique".toList, "security".toList, "validate".toList].all
      (fun w => w != [] && w.length < Cmd.tokenSize && w.all plainChar) = true := by
    unfold plainChar Cmd.isGap
    decide
  have hname := List.all_eq_true.1 hnames w h
  simp only [Bool.and_eq_true, bne_iff_ne, decide_eq_true_eq] at hname
  exact ⟨hname.1.1, hname.1.2, hname.2⟩

lemma word_printLong {u : ℤ} (hu : 0 ≤ u ∧ u < 2 ^ 31) : Word (printLong u) := by
  have hprint : printLong u = decimal u.natAbs := if_neg (by omega)
  have hlength : (decimal u.natAbs).length ≤ 10 :=
    (Nat.length_toDigits_le_iff (by decide) (by decide)).2 (by omega)
  refine ⟨printLong_ne_nil u, ?_, ?_⟩
  · rw [hprint]
    exact hlength.trans_lt (by decide)
  · exact List.all_eq_true.2 fun c hc => plainChar_digit (mem_printLong hc)

/-- What the server reads of the first lines. -/
lemma arguments_firstLines {u : ℤ} (hu : 0 ≤ u ∧ u < 2 ^ 31) (d : Digest) :
    ["unique ".toList ++ printLong u, "security ".toList ++ 'y' :: writeDigest d,
        "validate ".toList].mapM arguments =
      some [["unique".toList, printLong u], ["security".toList, 'y' :: writeDigest d],
        ["validate".toList]] := by
  have hpair {name v : CStr} (hname : Word name) (hv : Word v) :
      arguments (name ++ ' ' :: v) = some [name, v] := by
    have hcount : [v].length + 2 < 2 ^ 31 := by
      rw [List.length_singleton]
      decide
    have hline := arguments_words hname (List.forall_mem_singleton.2 hv) tail_nil hcount
    rwa [spaced_cons, show spaced [] = [] from rfl, List.append_nil, List.append_nil] at hline
  have hname : ∀ w ∈ ["unique".toList, "security".toList, "validate".toList], Word w :=
    fun w hw => word_name hw
  simp only [List.forall_mem_cons] at hname
  have hunique : arguments ("unique ".toList ++ printLong u) = _ :=
    hpair hname.1 (word_printLong hu)
  have hsecurity : arguments ("security ".toList ++ 'y' :: writeDigest d) = _ :=
    hpair hname.2.1 (word_key d)
  have hvalidate : arguments "validate ".toList = _ :=
    arguments_words hname.2.2.1 (List.forall_mem_nil _) tail_space (by decide)
  simp only [List.mapM_cons, List.mapM_nil, hunique, hsecurity, hvalidate]
  rfl

/-- The first lines, from the options to what the server reads. -/
lemma read_firstLines (ctx ctx1 : Ctx) {u : ℤ} (hu : 0 ≤ u ∧ u < 2 ^ 31) {d : Digest}
    {o : LrvmOptions.Options} (ho : o.unique = printLong u)
    (hkey : validateSecurity ctx ctx1 o.security u = some ('y' :: writeDigest d)) :
    (firstLines ctx ctx1 o).bind (·.mapM arguments) =
      some ([["unique".toList, printLong u], ["security".toList, 'y' :: writeDigest d]] ++
        [["validate".toList]]) := by
  have hatol : atol o.unique = u := by
    rw [ho]
    exact LrvmOptions.atol_printLong (by omega) (by omega)
  rw [firstLines, hatol, hkey, Option.bind_eq_bind, Option.bind_some, ho, Option.bind_some,
    arguments_firstLines hu]
  rfl

/-- What the first two lines leave in the record of the client. -/
lemma lastArgument_first (v w : CStr) :
    lastArgument .unique [["unique".toList, v], ["security".toList, w]] = some v ∧
      lastArgument .security [["unique".toList, v], ["security".toList, w]] = some w := by
  have hunique : Command.ofName (["unique".toList, v].headD []) = some .unique := by
    show Command.ofName "unique".toList = _
    decide
  have hsecurity : Command.ofName (["security".toList, w].headD []) = some .security := by
    show Command.ofName "security".toList = _
    decide
  have hne : Command.ofName (["security".toList, w].headD []) ≠ some .unique := by
    rw [hsecurity]
    decide
  constructor
  · rw [← List.singleton_append, lastArgument_concat, if_neg fun h => hne h.1,
      ← List.nil_append [_], lastArgument_concat, if_pos ⟨hunique, rfl⟩]
    rfl
  · rw [← List.singleton_append, lastArgument_concat, if_pos ⟨hsecurity, rfl⟩]
    rfl

/-- The process of `waitingProcess` with this key is in the belts, and a client has connected. -/
def connected (key : CStr) : Ipc 2 :=
  (Ipc.registerClient 120000000 5 ⟨10, 0⟩ { Ipc.initClients (fun _ => ([], ⟨0, 0⟩)) [] with
    belts := [{ waitingProcess with securityKey := key }] }).1

/-- Client `i` has sent the number of the process and the key. -/
def announced (i : Fin 2) (key : CStr) : Ipc 2 :=
  ((connected key).command sampleProfile (sampleAccounting 0 0) i
    ["unique".toList, "7".toList]).command sampleProfile (sampleAccounting 0 0) i
      ["security".toList, key]

lemma run_announced (key : CStr) : Run (IpcStep sampleProfile 120000000)
    (Ipc.initClients (fun _ => ([], ⟨0, 0⟩)) [])
    [.server [{ waitingProcess with securityKey := key }], .accept 5 ⟨10, 0⟩,
      .command 0 ["unique".toList, "7".toList] (sampleAccounting 0 0),
      .command 0 ["security".toList, key] (sampleAccounting 0 0)] (announced 0 key) :=
  Run.of_foldlM rfl

end WebTester.Librun.Handshake
