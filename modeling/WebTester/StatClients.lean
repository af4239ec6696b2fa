import WebTester.StatProtocol
import WebTester.StatCache
import WebTester.Transition

/-!
# Clients of the statistics

The variables of the server and one client of theirs. Every assignment ends with
`stat_changed_callback`, which sends a registered client a line with the variables that differ
from the copies kept for it and then copies them. The copies are updated whether or not the
changes were sent, and they stay when the client unregisters. A dump that does not fit its buffer
has no result.

The client reads the lines it was sent since it registered with `unpack_stat`, one after another.
`view` is what these lines should tell it, and `sent` what the line of the last step should.
-/
namespace WebTester.Stat
open CString Assarr Flexval Transition

variable {F : Type}

/-- The argument of `wt_stat_set_int`, `wt_stat_set_float`, `wt_stat_set_string` or
`wt_stat_set_array`. -/
inductive Value (F : Type)
  | int (x : ℤ)
  | float (x : F)
  | string (s : CStr)
  | array (vs : List (FlexVal F))

/-- Sets a flexible value. -/
def Value.assign (D : Doubles F) : Value F → FlexVal F → Option (FlexVal F)
  | .int x => FlexVal.setInt D x
  | .float x => FlexVal.setFloat D x
  | .string s => FlexVal.setString D s
  | .array vs => FlexVal.setArray D vs

structure StatServer (F : Type) where
  vars : AssArr (FlexVal F)
  authontificated : Bool
  access : ℤ
  /-- `ipc_client->uid`. -/
  ipcUid : CStr
  registered : Bool
  /-- `uid` of the `stat_client_t`. -/
  uid : CStr
  /-- `vars` of the `stat_client_t`. -/
  cache : AssArr (FlexVal F)
  /-- The lines that were sent since the client registered. -/
  lines : List CStr
  /-- The line of the last step. -/
  line : Option CStr
  view : CStr → Option CStr
  sent : List (CStr × CStr)

inductive StatEvent (F : Type)
  | set (var : CStr) (val : Value F)
  | register
  | unregister
  /-- A successful `login` of a user with this `access`. -/
  | login (access : ℤ)
  | logout

namespace StatServer

/-- A new connection. Nothing was stored about the client. -/
def initial (ipcUid : CStr) : StatServer F where
  vars := .create
  authontificated := false
  access := 0
  ipcUid := ipcUid
  registered := false
  uid := []
  cache := .create
  lines := []
  line := none
  view _ := none
  sent := []

/-- `review_clients`: the client loses its registration and its copies, and the stored uid
is written over the real one. -/
def review (s : StatServer F) : StatServer F :=
  if s.ipcUid ≠ s.uid then { s with registered := false, cache := .create, ipcUid := s.uid }
  else s

/-- `get_var` and the assignment. -/
def setVar (D : Doubles F) (vars : AssArr (FlexVal F)) (var : CStr) (val : Value F) :
    Option (AssArr (FlexVal F)) := do
  let fv ← val.assign D ((vars.getValue var).getD (FlexVal.create D))
  vars.setValue var fv

/-- Is the variable missing in the cache, or different there? -/
def changed (D : Doubles F) (cache : AssArr (FlexVal F)) (e : CStr × FlexVal F) : Bool :=
  !(cache.getValue e.1).any (FlexVal.same D e.2)

/-- The calls of `assarr_set_value` in `build_stat_changes`. -/
def changes (D : Doubles F) (vars cache : AssArr (FlexVal F)) : List (CStr × FlexVal F) :=
  vars.entries.filter (changed D cache)

/-- `build_stat_changes`. -/
def buildStatChanges (D : Doubles F) (vars cache : AssArr (FlexVal F)) :
    Option (AssArr (FlexVal F)) :=
  AssArr.setAll (changes D vars cache) .create

/-- One iteration of `update_client_stat_cache`. -/
def updateEntry (D : Doubles F) (cache : AssArr (FlexVal F)) (e : CStr × FlexVal F) :
    Option (AssArr (FlexVal F)) := do
  let cval ← FlexVal.copy D e.2 ((cache.getValue e.1).getD (FlexVal.create D))
  cache.setValue e.1 cval

/-- `update_client_stat_cache`. -/
def updateClientStatCache (D : Doubles F) (cache diff : AssArr (FlexVal F)) :
    Option (AssArr (FlexVal F)) :=
  diff.entries.foldlM (updateEntry D) cache

/-- `send_stat_changes` with its buffer `vars`: the line, if one is sent. -/
def sendLine (D : Doubles F) (access : ℤ) (diff : AssArr (FlexVal F)) : Option (Option CStr) :=
  if access < 7 ∨ (dumpArrToBuf D diff).length < bufSize then
    some (sendStatChanges D access diff)
  else none

/-- What the line of `send_stat_changes` should tell. -/
def sendChanges (D : Doubles F) (access : ℤ) (diff : AssArr (FlexVal F)) : List (CStr × CStr) :=
  if access < 7 then [] else serialized D diff

/-- `stat_changed_callback`. -/
def statChangedCallback (D : Doubles F) (s : StatServer F) : Option (StatServer F) :=
  let s := s.review
  if s.registered then do
    let diff ← buildStatChanges D s.vars s.cache
    let line ← sendLine D s.access diff
    let cache ← updateClientStatCache D s.cache diff
    let sent := sendChanges D s.access diff
    return { s with
      cache := cache, lines := s.lines ++ line.toList, line := line, sent := sent
      view := fun k => (sent.lookup k).or (s.view k) }
  else some s

/-- `ipc_stat` with one argument, after the review. -/
def command (s : StatServer F) (on : Bool) : StatServer F :=
  let s := s.review
  if s.access < 7 then s
  else if on then
    if s.registered then s
    else { s with registered := true, lines := [], view := fun _ => none }
  else { s with registered := false }

/-- Before a step nothing has been sent in it. -/
def quiet (s : StatServer F) : StatServer F := { s with line := none, sent := [] }

end StatServer

open StatServer

def statNext (D : Doubles F) (s : StatServer F) : StatEvent F → Option (StatServer F)
  | .set var val => do
    let vars ← setVar D s.vars var val
    statChangedCallback D { s.quiet with vars := vars }
  | .register => some (s.command true).quiet
  | .unregister => some (s.command false).quiet
  | .login access =>
    if s.authontificated then some s.quiet
    else some { s.quiet with authontificated := true, access := access }
  | .logout =>
    if s.authontificated then some { s.quiet with authontificated := false, access := 0 }
    else some s.quiet

/-! ## The client -/

/-- The variables of a line. -/
def readLine (fuel : ℕ) (junk junk' line : CStr) : Option (AssArr CStr) :=
  (unpackStat fuel junk junk' line .create .create).map Prod.snd

/-- What a client makes of lines: later ones count more. -/
def readLines (fuel : ℕ) (junk junk' : CStr) (lines : List CStr) :
    Option (CStr → Option CStr) :=
  lines.foldlM (fun view line => (readLine fuel junk junk' line).map fun vars key =>
    (vars.getValue key).or (view key)) fun _ => none

/-- The client reads the variables of the server from its lines. -/
def StatServer.UpToDate (D : Doubles F) (s : StatServer F) : Prop :=
  ∀ junk junk', ∃ fuel view,
    (∀ m, fuel ≤ m → readLines m junk junk' s.lines = some view) ∧
      ∀ y, view y = (s.vars.getValue y).map (FlexVal.serialize D)

/-- A line tells the client of `s` nothing that the client has. -/
def StatServer.New (s : StatServer F) (line : CStr) : Prop :=
  ∀ junk junk', ∃ fuel view vars,
    (∀ m, fuel ≤ m → readLines m junk junk' s.lines = some view ∧
      readLine m junk junk' line = some vars) ∧
    ∀ y t, vars.getValue y = some t → view y ≠ some t

abbrev StatStep (D : Doubles F) : StatServer F → StatEvent F → StatServer F → Prop :=
  StepOf (statNext D)

/-! ## Assignments -/

section Assign

variable {D : Doubles F} {v v' : FlexVal F} {val : Value F}

lemma isNumber_of_evalFromString (h : (FlexVal.evalFromString D v).type = .undefined) :
    isNumber v.pchar = false ∧ v.type = .undefined := by
  rw [type_evalFromString] at h
  split at h
  · cases h
  · next hn => exact ⟨by simpa using hn, h⟩

lemma bufferText_bufferText (s : CStr) :
    FlexVal.bufferText (FlexVal.bufferText s) = FlexVal.bufferText s := by
  unfold FlexVal.bufferText
  rw [List.take_take, min_self]

/-- Every assignment leaves a settled value, and only a text that is no number leaves a
value without a type. -/
theorem settled_assign (h : val.assign D v = some v') :
    v'.Settled ∧ (v'.type = .undefined → v.type = .undefined) := by
  cases val with
  | int x =>
    obtain ⟨-, rfl⟩ := setInt_eq_some_iff.1 h
    exact ⟨⟨by simp, by simp⟩, by simp⟩
  | float x =>
    obtain ⟨-, rfl⟩ := setFloat_eq_some_iff.1 h
    exact ⟨⟨by simp, by simp⟩, by simp⟩
  | string s =>
    obtain ⟨-, rfl⟩ := setString_eq_some_iff.1 h
    refine ⟨⟨fun hu => ?_, fun _ => ?_⟩, fun hu => ?_⟩
    · rw [pchar_evalFromString]
      exact (isNumber_of_evalFromString hu).1
    · rw [pchar_evalFromString]
      exact bufferText_bufferText s
    · exact (isNumber_of_evalFromString hu).2
  | array vs =>
    simp only [Value.assign, FlexVal.setArray, Option.bind_eq_bind, Option.bind_eq_some_iff,
      Option.pure_def] at h
    obtain ⟨w, -, h⟩ := h
    obtain ⟨-, h⟩ := Option.ite_none_right_eq_some.1 h
    obtain rfl := Option.some.inj h
    exact ⟨⟨by simp, by simp⟩, by simp⟩

lemma getValue_setVar {vars vars' : AssArr (FlexVal F)} {x : CStr}
    (h : setVar D vars x val = some vars') :
    ∃ v', val.assign D ((vars.getValue x).getD (FlexVal.create D)) = some v' ∧
      ∀ y, vars'.getValue y = if y = x then some v' else vars.getValue y := by
  unfold setVar at h
  rw [Option.bind_eq_bind, Option.bind_eq_some_iff] at h
  obtain ⟨v', hv', hset⟩ := h
  exact ⟨v', hv', AssArr.getValue_setValue hset⟩

end Assign

/-! ## The callback -/

section Callback

variable {D : Doubles F} {vars cache cache' diff : AssArr (FlexVal F)}

lemma updateEntry_fold {es : List (CStr × FlexVal F)} (hn : (es.map Prod.fst).Nodup)
    (h : es.foldlM (updateEntry D) cache = some cache') (y : CStr) :
    cache'.getValue y = match es.lookup y with
      | none => cache.getValue y
      | some v => FlexVal.copy D v ((cache.getValue y).getD (FlexVal.create D)) := by
  induction es generalizing cache with
  | nil =>
    obtain rfl : cache = cache' := by simpa using h
    rfl
  | cons e es ih =>
    obtain ⟨k, v⟩ := e
    rw [List.map_cons, List.nodup_cons] at hn
    rw [List.foldlM_cons, Option.bind_eq_bind, Option.bind_eq_some_iff] at h
    obtain ⟨c, hc, hfold⟩ := h
    unfold updateEntry at hc
    rw [Option.bind_eq_bind, Option.bind_eq_some_iff] at hc
    obtain ⟨w, hw, hset⟩ := hc
    rw [ih hn.2 hfold, Assoc.lookup_cons_ite, AssArr.getValue_setValue hset]
    by_cases hy : y = k
    · subst hy
      have hnone : es.lookup y = none := by
        rw [Option.eq_none_iff_forall_ne_some]
        intro u hu
        exact hn.1 (List.mem_map.2 ⟨_, Assoc.mem_of_lookup hu, rfl⟩)
      rw [if_pos rfl, if_pos rfl, hnone]
      exact hw.symm
    · rw [if_neg hy, if_neg hy]

lemma updateEntry_fold_isSome {es : List (CStr × FlexVal F)} (hn : (es.map Prod.fst).Nodup)
    (hh : ∀ e ∈ es, 0 ≤ assarrHash e.1)
    (hl : ∀ e ∈ es, ((cache.getValue e.1).getD (FlexVal.create D)).length = 0) :
    (es.foldlM (updateEntry D) cache).isSome := by
  induction es generalizing cache with
  | nil => rfl
  | cons e es ih =>
    rw [List.map_cons, List.nodup_cons] at hn
    rw [List.forall_mem_cons] at hh hl
    obtain ⟨w, hw⟩ := Option.isSome_iff_exists.1 (FlexVal.copy_isSome (D := D) (v := e.2) hl.1)
    obtain ⟨c, hc⟩ := Option.isSome_iff_exists.1
      (AssArr.setValue_isSome (a := cache) (v := w).2 hh.1)
    have hentry : updateEntry D cache e = some c := by
      unfold updateEntry
      rw [hw]
      exact hc
    rw [List.foldlM_cons, hentry]
    refine ih hn.2 hh.2 fun f hf => ?_
    have hne : f.1 ≠ e.1 := by
      intro he
      exact hn.1 (List.mem_map.2 ⟨f, hf, he⟩)
    rw [AssArr.getValue_setValue hc, if_neg hne]
    exact hl.2 f hf

lemma nodup_changes : ((changes D vars cache).map Prod.fst).Nodup :=
  vars.nodup_entries.sublist (List.filter_sublist.map _)

lemma lookup_changes (D : Doubles F) (vars cache : AssArr (FlexVal F)) (y : CStr) :
    (changes D vars cache).lookup y = (vars.getValue y).filter fun v => changed D cache (y, v) := by
  ext v
  rw [Assoc.lookup_eq_some_iff_mem nodup_changes, changes, List.mem_filter, AssArr.mem_entries,
    Option.filter_eq_some_iff]

/-- What the callback does to a registered client. -/
structure CalledBack (D : Doubles F) (s s' : StatServer F) : Prop where
  vars : s'.vars = s.vars
  access : s'.access = s.access
  uids : s'.ipcUid = s'.uid
  registered : s'.registered
  cache : ∀ y, s'.cache.getValue y = match (changes D s.vars s.cache).lookup y with
    | none => s.cache.getValue y
    | some v => FlexVal.copy D v ((s.cache.getValue y).getD (FlexVal.create D))
  view : ∀ y, s'.view y = (s'.sent.lookup y).or (s.view y)
  sent : ∀ y, s'.sent.lookup y = if s.access < 7 then none
    else ((changes D s.vars s.cache).lookup y).map (FlexVal.serialize D)
  sent_mem : ∀ e ∈ s'.sent, s'.sent.lookup e.1 = some e.2
  lines : s'.lines = s.lines ++ s'.line.toList
  sends : s.access < 7 ∧ s'.line = none ∧ s'.sent = [] ∨
    7 ≤ s.access ∧ ∃ diff, buildStatChanges D s.vars s.cache = some diff ∧
      s'.line = sendStatChanges D s.access diff ∧ s'.sent = serialized D diff

lemma review_of_registered {s : StatServer F} (h : s.review.registered) :
    s.review = s ∧ s.ipcUid = s.uid := by
  unfold review at h ⊢
  split at h
  · cases h
  · next hu => exact ⟨if_neg hu, not_not.1 hu⟩

theorem calledBack {s s' : StatServer F} (hr : s.review.registered)
    (h : statChangedCallback D s = some s') : CalledBack D s s' := by
  obtain ⟨hs, hu⟩ := review_of_registered hr
  unfold statChangedCallback at h
  rw [hs] at hr h
  dsimp only at h
  rw [if_pos hr] at h
  simp only [Option.bind_eq_bind, Option.bind_eq_some_iff, Option.pure_def,
    Option.some.injEq] at h
  obtain ⟨diff, hdiff, line, hline, cache', hcache, rfl⟩ := h
  unfold updateClientStatCache at hcache
  have hget := AssArr.getValue_setAll_create nodup_changes hdiff
  have hnodup : ((serialized D diff).map Prod.fst).Nodup := by
    unfold serialized
    rw [List.map_map]
    exact diff.nodup_entries
  have hcached : ∀ y, cache'.getValue y = match (changes D s.vars s.cache).lookup y with
      | none => s.cache.getValue y
      | some v => FlexVal.copy D v ((s.cache.getValue y).getD (FlexVal.create D)) := by
    intro y
    have hfold := updateEntry_fold diff.nodup_entries hcache y
    rwa [AssArr.lookup_entries, hget] at hfold
  have hsent : ∀ y, (sendChanges D s.access diff).lookup y = if s.access < 7 then none
      else ((changes D s.vars s.cache).lookup y).map (FlexVal.serialize D) := by
    intro y
    unfold sendChanges
    split
    · rfl
    · rw [lookup_serialized, hget]
  have hmem : ∀ e ∈ sendChanges D s.access diff,
      (sendChanges D s.access diff).lookup e.1 = some e.2 := by
    intro e he
    unfold sendChanges at he ⊢
    split at he
    · cases he
    · next hacc =>
      rw [if_neg hacc, Assoc.lookup_eq_some_iff_mem hnodup]
      exact he
  refine ⟨rfl, rfl, hu, hr, hcached, fun _ => rfl, hsent, hmem, rfl, ?_⟩
  dsimp only
  unfold sendLine at hline
  split at hline
  · rw [← Option.some.inj hline]
    by_cases hacc : s.access < 7
    · exact .inl ⟨hacc, if_pos hacc, if_pos hacc⟩
    · exact .inr ⟨by omega, diff, hdiff, rfl, if_neg hacc⟩
  · cases hline

/-- The line with these variables fits its buffers, `+OK` and the end of the line included. -/
def LineFits (D : Doubles F) (es : List (CStr × FlexVal F)) : Prop :=
  (decimal (es.flatMap (dumpEntry D)).length).length + (es.flatMap (dumpEntry D)).length + 12 <
    bufSize

instance (D : Doubles F) (es : List (CStr × FlexVal F)) : Decidable (LineFits D es) :=
  inferInstanceAs (Decidable (_ < _))

lemma diff_perm (h : buildStatChanges D vars cache = some diff) :
    diff.entries.Perm (changes D vars cache) :=
  AssArr.entries_perm nodup_changes h

lemma length_dump_diff (h : buildStatChanges D vars cache = some diff) :
    (dumpArrToBuf D diff).length = ((changes D vars cache).flatMap (dumpEntry D)).length :=
  ((diff_perm h).flatMap_right (dumpEntry D)).length_eq

/-- A line that fits and whose variables can be read tells what it should. -/
lemma CalledBack.told {s s' : StatServer F} (h : CalledBack D s s')
    (hsend : 7 ≤ s.access → (∀ e ∈ changes D s.vars s.cache, Sendable D e) ∧
      LineFits D (changes D s.vars s.cache)) :
    s'.line = none ∧ s'.sent = [] ∨ ∃ line diff, s'.line = some line ∧ DecodesTo D diff line ∧
      ∀ y, s'.sent.lookup y = (diff.getValue y).map (FlexVal.serialize D) := by
  rcases h.sends with ⟨-, hline, hsent⟩ | ⟨hacc, diff, hdiff, hline, hsent⟩
  · exact .inl ⟨hline, hsent⟩
  obtain ⟨hsendable, hfits⟩ := hsend hacc
  have hsendable' : ∀ e ∈ diff.entries, Sendable D e := fun e he =>
    hsendable e ((diff_perm hdiff).mem_iff.1 he)
  have hfit : (dumpStatToBuf D diff).length + 5 < bufSize := by
    rw [LineFits, ← length_dump_diff hdiff] at hfits
    rw [length_dumpStatToBuf]
    omega
  by_cases hempty : diff.entries = []
  · have hnone : sendStatChanges D s.access diff = none := by
      unfold sendStatChanges dumpArrToBuf
      rw [if_neg (by omega), hempty]
      rfl
    refine .inl ⟨hline.trans hnone, hsent.trans ?_⟩
    rw [serialized, hempty, List.map_nil]
  · obtain ⟨line, hsome, hdecodes⟩ := sendStatChanges_decodes hsendable' hfit hacc hempty
    refine .inr ⟨line, diff, hline.trans hsome, hdecodes, fun y => ?_⟩
    rw [hsent, lookup_serialized]

/-- The callback has a defined effect when no copy is an array and the dump fits its buffer. -/
theorem callback_isSome {s : StatServer F} (hl : s.review.registered →
    ∀ y, ((s.cache.getValue y).getD (FlexVal.create D)).length = 0)
    (hfit : ((changes D s.vars s.cache).flatMap (dumpEntry D)).length < bufSize) :
    (statChangedCallback D s).isSome := by
  unfold statChangedCallback
  dsimp only
  split
  · next hr =>
    obtain ⟨hs, -⟩ := review_of_registered hr
    rw [hs]
    have hhash : ∀ e ∈ changes D s.vars s.cache, 0 ≤ assarrHash e.1 := fun e he =>
      AssArr.hash_of_mem (List.mem_filter.1 he).1
    obtain ⟨diff, hdiff⟩ := Option.isSome_iff_exists.1
      (AssArr.setAll_isSome (a := AssArr.create).2 hhash)
    obtain ⟨cache', hcache⟩ := Option.isSome_iff_exists.1 (updateEntry_fold_isSome (D := D)
      diff.nodup_entries (fun e he => AssArr.hash_of_mem he) fun e _ => hl hr e.1)
    have hlt : (dumpArrToBuf D diff).length < bufSize := by
      rw [length_dump_diff hdiff]
      exact hfit
    have hline : sendLine D s.access diff = some (sendStatChanges D s.access diff) := by
      rw [sendLine, if_pos (Or.inr hlt)]
    unfold updateClientStatCache
    rw [buildStatChanges, hdiff, Option.bind_eq_bind, Option.bind_some, hline,
      Option.bind_eq_bind, Option.bind_some, hcache]
    rfl
  · rfl

lemma callback_of_unregistered {s s' : StatServer F} (hr : ¬s.review.registered)
    (h : statChangedCallback D s = some s') : s' = s.review := by
  unfold statChangedCallback at h
  dsimp only at h
  rw [if_neg hr] at h
  exact (Option.some.inj h).symm

end Callback

/-! ## Runs in which nothing is lost -/

section Runs

variable {D : Doubles F} {s s' : StatServer F}

/-- Changes are sent in a line that can be read, and every variable is followed. A client registers
with no copies left. -/
def Traceable (D : Doubles F) (s : StatServer F) : StatEvent F → Prop
  | .set var val => s.review.registered → ∀ vars ∈ setVar D s.vars var val,
    (s.access < 7 → changes D vars s.cache = []) ∧
      (∀ e ∈ changes D vars s.cache, Sendable D e) ∧ LineFits D (changes D vars s.cache) ∧
      ∀ e ∈ vars.entries, e.2.Followed D (s.cache.getValue e.1) (s.view e.1)
  | .register => 7 ≤ s.access → ¬s.review.registered → s.review.cache.entries = []
  | _ => True

/-- What the client knows of a variable. -/
def Known (D : Doubles F) (s : StatServer F) (y : CStr) : Prop :=
  s.cache.getValue y = none ∧ s.view y = none ∨
    ∃ v c, s.vars.getValue y = some v ∧ s.cache.getValue y = some c ∧
      s.view y = some (v.serialize D) ∧ v.same D c ∧ c.Shows D (v.serialize D)

/-- What the client knows of a variable that may have been assigned since. -/
def Prior (D : Doubles F) (s : StatServer F) (y : CStr) : Prop :=
  s.cache.getValue y = none ∧ s.view y = none ∨
    ∃ v c t, s.vars.getValue y = some v ∧ s.cache.getValue y = some c ∧ s.view y = some t ∧
      c.Shows D t ∧ (v.type = .undefined → c.type = .undefined)

/-- A variable that exists has no copy, or one that shows the text that was sent. -/
lemma Prior.of_some {y : CStr} {v : FlexVal F} (h : Prior D s y)
    (hv : s.vars.getValue y = some v) :
    s.cache.getValue y = none ∧ s.view y = none ∨
      ∃ c t, s.cache.getValue y = some c ∧ s.view y = some t ∧ c.Shows D t ∧
        (v.type = .undefined → c.type = .undefined) := by
  obtain hnone | ⟨w, c, t, hw, hc, ht, hshows, hu⟩ := h
  · exact .inl hnone
  · rw [hv] at hw
    cases hw
    exact .inr ⟨c, t, hc, ht, hshows, hu⟩

namespace CalledBack

variable {y : CStr}

/-- The callback leaves a variable without changes alone. -/
lemma of_unchanged (h : CalledBack D s s') (hy : (changes D s.vars s.cache).lookup y = none) :
    s'.cache.getValue y = s.cache.getValue y ∧ s'.sent.lookup y = none ∧
      s'.view y = s.view y := by
  have hcache := h.cache y
  have hsent := h.sent y
  have hview := h.view y
  rw [hy] at hcache hsent
  rw [Option.map_none, ite_self] at hsent
  rw [hsent, Option.none_or] at hview
  exact ⟨hcache, hsent, hview⟩

/-- A changed variable is copied and sent. -/
lemma of_changed (h : CalledBack D s s') {v : FlexVal F}
    (hy : (changes D s.vars s.cache).lookup y = some v)
    (hacc : s.access < 7 → changes D s.vars s.cache = []) :
    s'.cache.getValue y = FlexVal.copy D v ((s.cache.getValue y).getD (FlexVal.create D)) ∧
      s'.sent.lookup y = some (v.serialize D) ∧ s'.view y = some (v.serialize D) := by
  have hadmin : ¬s.access < 7 := by
    intro h
    rw [hacc h] at hy
    cases hy
  have hcache := h.cache y
  have hsent := h.sent y
  have hview := h.view y
  rw [hy] at hcache hsent
  rw [if_neg hadmin, Option.map_some] at hsent
  rw [hsent, Option.some_or] at hview
  exact ⟨hcache, hsent, hview⟩

/-- The copy of a changed variable is equal to it, and its text is new to the client. -/
lemma known_of_changed (hD : D.Printing) (h : CalledBack D s s') {v : FlexVal F}
    (hv : s.vars.getValue y = some v) (hch : changed D s.cache (y, v))
    (hlookup : (changes D s.vars s.cache).lookup y = some v) (hsettled : v.Settled)
    (hf : v.Followed D (s.cache.getValue y) (s.view y))
    (hacc : s.access < 7 → changes D s.vars s.cache = []) (hprior : Prior D s y) :
    Known D s' y ∧ s'.view y = some (v.serialize D) ∧
      ∀ t, s'.sent.lookup y = some t → s.view y ≠ some t := by
  obtain ⟨hcache, hsent, hview⟩ := h.of_changed hlookup hacc
  have hdst : ((s.cache.getValue y).getD (FlexVal.create D)).length = 0 ∧
      (v.type = .undefined →
        ((s.cache.getValue y).getD (FlexVal.create D)).type = .undefined) := by
    obtain ⟨hc, -⟩ | ⟨c, t, hc, -, hshows, hu⟩ := hprior.of_some hv
    · rw [hc]
      exact ⟨rfl, fun _ => rfl⟩
    · rw [hc]
      exact ⟨hshows.1, hu⟩
  obtain ⟨c', hc'⟩ := Option.isSome_iff_exists.1 (FlexVal.copy_isSome (D := D) (v := v) hdst.1)
  obtain ⟨hshows', hsame'⟩ := FlexVal.shows_copy hsettled hf hdst.1 hdst.2 hc'
  refine ⟨.inr ⟨v, c', ?_, hcache.trans hc', hview, hsame', hshows'⟩, hview, fun t ht => ?_⟩
  · rw [h.vars, hv]
  · obtain rfl := Option.some.inj (hsent.symm.trans ht)
    obtain ⟨-, hw⟩ | ⟨c, t, hc, ht, hshows, hu⟩ := hprior.of_some hv
    · simp [hw]
    · have hdiffer : ¬v.same D c := by simpa [changed, hc] using hch
      rw [hc, ht] at hf
      rw [ht]
      intro he
      exact hdiffer ((FlexVal.same_iff_serialize hD hshows hf hu).2 (Option.some.inj he).symm)

/-- A variable that compares as equal to its copy has the text that was sent. -/
lemma known_of_unchanged (hD : D.Printing) (h : CalledBack D s s') {v : FlexVal F}
    (hv : s.vars.getValue y = some v) (hch : ¬changed D s.cache (y, v))
    (hlookup : (changes D s.vars s.cache).lookup y = none)
    (hf : v.Followed D (s.cache.getValue y) (s.view y)) (hprior : Prior D s y) :
    Known D s' y ∧ s'.view y = some (v.serialize D) ∧
      ∀ t, s'.sent.lookup y = some t → s.view y ≠ some t := by
  obtain ⟨hcache, hsent, hview⟩ := h.of_unchanged hlookup
  obtain ⟨hc, -⟩ | ⟨c, t, hc, ht, hshows, hu⟩ := hprior.of_some hv
  · simp [changed, hc] at hch
  · have hsame : v.same D c := by simpa [changed, hc] using hch
    rw [hc, ht] at hf
    obtain rfl := (FlexVal.same_iff_serialize hD hshows hf hu).1 hsame
    refine ⟨.inr ⟨v, c, ?_, hcache.trans hc, hview.trans ht, hsame, hshows⟩,
      hview.trans ht, by simp [hsent]⟩
    rw [h.vars, hv]

end CalledBack

/-- The callback brings the client up to date with a variable, and sends it only if its text
has changed. -/
theorem known_of_calledBack (hD : D.Printing) (hcb : CalledBack D s s') {y : CStr}
    (hsettled : ∀ v, s.vars.getValue y = some v → v.Settled)
    (hfollowed : ∀ v, s.vars.getValue y = some v →
      v.Followed D (s.cache.getValue y) (s.view y))
    (hacc : s.access < 7 → changes D s.vars s.cache = []) (hprior : Prior D s y) :
    Known D s' y ∧ s'.view y = (s'.vars.getValue y).map (FlexVal.serialize D) ∧
      ∀ t, s'.sent.lookup y = some t → s.view y ≠ some t := by
  have hlookup := lookup_changes D s.vars s.cache y
  rw [hcb.vars]
  cases hv : s.vars.getValue y with
  | none =>
    -- A variable that does not exist is not in the cache either.
    rw [hv, Option.filter_none] at hlookup
    obtain ⟨hcache, hsent, hview⟩ := hcb.of_unchanged hlookup
    obtain ⟨hc, hw⟩ | ⟨v, -, -, hv', -⟩ := hprior
    · exact ⟨.inl ⟨hcache.trans hc, hview.trans hw⟩, hview.trans hw, by simp [hsent]⟩
    · rw [hv] at hv'
      cases hv'
  | some v =>
    rw [hv, Option.filter_some] at hlookup
    by_cases hch : changed D s.cache (y, v)
    · rw [if_pos hch] at hlookup
      exact hcb.known_of_changed hD hv hch hlookup (hsettled v hv) (hfollowed v hv) hacc hprior
    · rw [if_neg hch] at hlookup
      exact hcb.known_of_unchanged hD hv hch hlookup (hfollowed v hv) hprior

/-- The client reads what its lines should tell. -/
def Shown (s : StatServer F) : Prop :=
  ∀ junk junk', ∃ fuel, ∀ m, fuel ≤ m → readLines m junk junk' s.lines = some s.view

structure StatInvariant (D : Doubles F) (s : StatServer F) : Prop where
  settled : ∀ y v, s.vars.getValue y = some v → v.Settled
  uids : s.registered → s.ipcUid = s.uid
  known : s.registered → ∀ y, Known D s y
  shown : s.registered → Shown s

lemma review_vars (s : StatServer F) : s.review.vars = s.vars := by
  unfold review
  split <;> rfl

lemma review_registered (s : StatServer F) (vars : AssArr (FlexVal F)) :
    ({ s.quiet with vars := vars } : StatServer F).review.registered = s.review.registered := by
  unfold review quiet
  split <;> rfl

lemma review_line (s : StatServer F) : s.review.line = s.line := by
  unfold review
  split <;> rfl

lemma FlexVal.type_eq_of_same {v c : FlexVal F} (h : v.same D c) : v.type = c.type := by
  unfold FlexVal.same at h
  split at h
  · cases h
  · next ht => exact not_not.1 ht

lemma settled_setVar {vars : AssArr (FlexVal F)} {x : CStr} {val : Value F}
    (h : setVar D s.vars x val = some vars) (hI : StatInvariant D s) (y : CStr) (v : FlexVal F)
    (hv : vars.getValue y = some v) : v.Settled := by
  obtain ⟨v', hassign, hget⟩ := getValue_setVar h
  rw [hget] at hv
  split at hv
  · cases hv
    exact (settled_assign hassign).1
  · exact hI.settled y v hv

/-- What the client knew, seen after an assignment. -/
lemma prior_setVar {vars : AssArr (FlexVal F)} {x : CStr} {val : Value F}
    (h : setVar D s.vars x val = some vars) {y : CStr} (hy : Known D s y) :
    Prior D { s.quiet with vars := vars } y := by
  obtain ⟨v', hassign, hget⟩ := getValue_setVar h
  obtain hnone | ⟨v, c, hv, hc, ht, hsame, hshows⟩ := hy
  · exact .inl hnone
  · have htype := FlexVal.type_eq_of_same hsame
    by_cases hx : y = x
    · subst hx
      rw [hv, Option.getD_some] at hassign
      refine .inr ⟨v', c, _, (hget y).trans (if_pos rfl), hc, ht, hshows, fun hu => ?_⟩
      rw [← htype]
      exact (settled_assign hassign).2 hu
    · refine .inr ⟨v, c, _, ((hget y).trans (if_neg hx)).trans hv, hc, ht, hshows, fun hu => ?_⟩
      rw [← htype]
      exact hu

lemma set_cases {x : CStr} {val : Value F} (hs : StatStep D s (.set x val) s') :
    ∃ vars, setVar D s.vars x val = some vars ∧
      statChangedCallback D { s.quiet with vars := vars } = some s' :=
  Option.bind_eq_some_iff.1 hs

lemma set_calledBack {x : CStr} {val : Value F} (hr : s.review.registered)
    (hs : StatStep D s (.set x val) s') :
    ∃ vars, setVar D s.vars x val = some vars ∧
      CalledBack D { s.quiet with vars := vars } s' := by
  obtain ⟨vars, hvars, hback⟩ := set_cases hs
  exact ⟨vars, hvars, calledBack (by rwa [review_registered]) hback⟩

/-- The lines go on to tell what they should. -/
lemma CalledBack.shown (h : CalledBack D s s') (hs : Shown s)
    (hsend : 7 ≤ s.access → (∀ e ∈ changes D s.vars s.cache, Sendable D e) ∧
      LineFits D (changes D s.vars s.cache)) :
    Shown s' ∧ ∀ line, s'.line = some line → ∀ junk junk', ∃ fuel vars,
      (∀ m, fuel ≤ m → readLine m junk junk' line = some vars) ∧
        ∀ y, vars.getValue y = s'.sent.lookup y := by
  rcases h.told hsend with ⟨hline, hsent⟩ | ⟨line, diff, hline, hdecodes, hsent⟩
  · have hview : s'.view = s.view := by
      funext y
      rw [h.view, hsent]
      rfl
    refine ⟨fun junk junk' => ?_, fun line hsome => ?_⟩
    · rw [h.lines, hline, hview, Option.toList_none, List.append_nil]
      exact hs junk junk'
    · rw [hline] at hsome
      cases hsome
  · have hread : ∀ junk junk', ∃ fuel vars,
        (∀ m, fuel ≤ m → readLine m junk junk' line = some vars) ∧
          ∀ y, vars.getValue y = s'.sent.lookup y := by
      intro junk junk'
      obtain ⟨fuel, vars, hunpack, hget⟩ := hdecodes junk junk'
      refine ⟨fuel, vars, fun m hm => ?_, fun y => (hget y).trans (hsent y).symm⟩
      obtain ⟨a, ha⟩ := hunpack m hm
      rw [readLine, ha]
      rfl
    refine ⟨fun junk junk' => ?_, fun line' hsome => ?_⟩
    · obtain ⟨fuel₁, hlines⟩ := hs junk junk'
      obtain ⟨fuel₂, vars, hvars, hget⟩ := hread junk junk'
      refine ⟨max fuel₁ fuel₂, fun m hm => ?_⟩
      have hview : s'.view = fun y => (vars.getValue y).or (s.view y) := by
        funext y
        rw [h.view, hget]
      have hm₁ := hlines m (le_of_max_le_left hm)
      rw [readLines] at hm₁
      rw [h.lines, hline, Option.toList_some, readLines, List.foldlM_append, hm₁, hview]
      simp [hvars m (le_of_max_le_right hm)]
    · rw [hline] at hsome
      cases hsome
      exact hread

/-- The variables after an assignment and its callback. -/
theorem set_known (hD : D.Printing) (hI : StatInvariant D s) {x : CStr} {val : Value F}
    (hg : Traceable D s (.set x val)) (hs : StatStep D s (.set x val) s')
    (hr : s.review.registered) :
    (∀ y v, s'.vars.getValue y = some v → v.Settled) ∧ s'.ipcUid = s'.uid ∧
      ∀ y, Known D s' y ∧ s'.view y = (s'.vars.getValue y).map (FlexVal.serialize D) ∧
        ∀ t, s'.sent.lookup y = some t → s.view y ≠ some t := by
  obtain ⟨vars, hvars, hcb⟩ := set_calledBack hr hs
  have hsettled := settled_setVar hvars hI
  obtain ⟨hacc, -, -, hfollowed⟩ := hg hr vars hvars
  rw [(review_of_registered hr).1] at hr
  refine ⟨?_, hcb.uids, fun y => ?_⟩
  · rw [hcb.vars]
    exact hsettled
  · exact known_of_calledBack hD hcb (hsettled y)
      (fun v hv => hfollowed (y, v) (AssArr.mem_entries.2 hv)) hacc
      (prior_setVar hvars (hI.known hr y))

/-- The lines after an assignment and its callback. -/
theorem set_shown (hI : StatInvariant D s) {x : CStr} {val : Value F}
    (hg : Traceable D s (.set x val)) (hs : StatStep D s (.set x val) s')
    (hr : s.review.registered) :
    Shown s' ∧ ∀ line, s'.line = some line → ∀ junk junk', ∃ fuel vars,
      (∀ m, fuel ≤ m → readLine m junk junk' line = some vars) ∧
        ∀ y, vars.getValue y = s'.sent.lookup y := by
  obtain ⟨vars, hvars, hcb⟩ := set_calledBack hr hs
  obtain ⟨-, hsendable, hfits, -⟩ := hg hr vars hvars
  rw [(review_of_registered hr).1] at hr
  exact hcb.shown (hI.shown hr) fun _ => ⟨hsendable, hfits⟩

lemma set_unregistered {x : CStr} {val : Value F} (hr : ¬s.review.registered)
    (hI : StatInvariant D s) (hs : StatStep D s (.set x val) s') :
    (∀ y v, s'.vars.getValue y = some v → v.Settled) ∧ s'.registered = false ∧
      s'.line = none := by
  obtain ⟨vars, hvars, hback⟩ := set_cases hs
  have hr' := review_registered s vars
  obtain rfl := callback_of_unregistered (by rwa [hr']) hback
  refine ⟨?_, ?_, review_line _⟩
  · rw [review_vars]
    exact settled_setVar hvars hI
  · rw [hr']
    simpa using hr

/-- An assignment and its callback. -/
theorem set_step (hD : D.Printing) (hI : StatInvariant D s) {x : CStr} {val : Value F}
    (hg : Traceable D s (.set x val)) (hs : StatStep D s (.set x val) s') :
    StatInvariant D s' ∧ (s'.registered → s'.UpToDate D) ∧
      ∀ line, s'.line = some line → s.New line := by
  by_cases hr : s.review.registered
  · obtain ⟨hsettled, huids, hknown⟩ := set_known hD hI hg hs hr
    obtain ⟨hshown, hline⟩ := set_shown hI hg hs hr
    refine ⟨⟨hsettled, fun _ => huids, fun _ y => (hknown y).1, fun _ => hshown⟩,
      fun _ junk junk' => ?_, fun line hsome junk junk' => ?_⟩
    · obtain ⟨fuel, hlines⟩ := hshown junk junk'
      exact ⟨fuel, s'.view, hlines, fun y => (hknown y).2.1⟩
    · rw [(review_of_registered hr).1] at hr
      obtain ⟨fuel₁, hlines⟩ := hI.shown hr junk junk'
      obtain ⟨fuel₂, vars, hvars, hget⟩ := hline line hsome junk junk'
      refine ⟨max fuel₁ fuel₂, s.view, vars, fun m hm =>
        ⟨hlines m (le_of_max_le_left hm), hvars m (le_of_max_le_right hm)⟩, fun y t ht => ?_⟩
      exact (hknown y).2.2 t ((hget y).symm.trans ht)
  · obtain ⟨hsettled, hregistered, hline⟩ := set_unregistered hr hI hs
    refine ⟨⟨hsettled, ?_, ?_, ?_⟩, ?_, ?_⟩ <;> simp [hregistered, hline]

lemma Known.length_eq {y : CStr} (h : Known D s y) :
    ((s.cache.getValue y).getD (FlexVal.create D)).length = 0 := by
  obtain ⟨hc, -⟩ | ⟨v, c, -, hc, -, -, hshows⟩ := h
  · rw [hc]
    rfl
  · rw [hc]
    exact hshows.1

/-- Assignments to a variable whose key has a bucket go through where the dump fits its buffer. -/
theorem exists_set_step (hI : StatInvariant D s) (x : CStr) (val : Value F)
    (hx : 0 ≤ assarrHash x)
    (hv : (val.assign D ((s.vars.getValue x).getD (FlexVal.create D))).isSome)
    (hfit : ∀ vars, setVar D s.vars x val = some vars →
      ((changes D vars s.cache).flatMap (dumpEntry D)).length < bufSize) :
    ∃ s', StatStep D s (.set x val) s' := by
  obtain ⟨v, hv⟩ := Option.isSome_iff_exists.1 hv
  obtain ⟨vars, hvars⟩ := Option.isSome_iff_exists.1
    (AssArr.setValue_isSome (a := s.vars) (v := v).2 hx)
  have hset : setVar D s.vars x val = some vars := by
    unfold setVar
    rw [hv]
    exact hvars
  have hback : (statChangedCallback D { s.quiet with vars := vars }).isSome := by
    refine callback_isSome (fun hr y => ?_) (hfit vars hset)
    rw [review_registered] at hr
    obtain ⟨hrev, -⟩ := review_of_registered hr
    rw [hrev] at hr
    exact (hI.known hr y).length_eq
  obtain ⟨s', hs'⟩ := Option.isSome_iff_exists.1 hback
  refine ⟨s', ?_⟩
  show (setVar D s.vars x val).bind _ = some s'
  rw [hset]
  exact hs'

lemma getValue_eq_none_of_entries {a : AssArr (FlexVal F)} (h : a.entries = []) (y : CStr) :
    a.getValue y = none := by
  rw [← AssArr.lookup_entries, h]
  rfl

lemma review_access (s : StatServer F) : s.review.access = s.access := by
  unfold review
  split <;> rfl

lemma review_uids (s : StatServer F) : s.review.ipcUid = s.review.uid := by
  unfold review
  split
  · rfl
  · next h => exact not_not.1 h

lemma statInvariant_review (hI : StatInvariant D s) : StatInvariant D s.review := by
  unfold review
  split
  · exact ⟨hI.settled, nofun, nofun, nofun⟩
  · exact hI

/-- `stat register` and `stat unregister`. -/
theorem command_step (hI : StatInvariant D s) (on : Bool)
    (hg : on → 7 ≤ s.access → ¬s.review.registered → s.review.cache.entries = []) :
    StatInvariant D (s.command on) := by
  have hrev := statInvariant_review hI
  unfold command
  dsimp only
  split
  · exact hrev
  · next hacc =>
    split
    · next hon =>
      split
      · exact hrev
      · next hreg =>
        rw [review_access] at hacc
        have hempty := getValue_eq_none_of_entries (hg hon (by omega) hreg)
        exact ⟨hrev.settled, fun _ => review_uids s, fun _ y => .inl ⟨hempty y, rfl⟩,
          fun _ _ _ => ⟨0, fun _ _ => rfl⟩⟩
    · exact ⟨hrev.settled, nofun, nofun, nofun⟩

theorem statInvariant_step (hD : D.Printing) {e : StatEvent F} (hI : StatInvariant D s)
    (hs : Guarded (Traceable D) (StatStep D) s e s') : StatInvariant D s' := by
  obtain ⟨hg, hs⟩ := hs
  cases e with
  | set x val => exact (set_step hD hI hg hs).1
  | register =>
    have h := command_step hI true fun _ => hg
    cases hs
    exact ⟨h.settled, h.uids, h.known, h.shown⟩
  | unregister =>
    have h := command_step hI false nofun
    cases hs
    exact ⟨h.settled, h.uids, h.known, h.shown⟩
  | login access =>
    change (if s.authontificated then _ else _) = some s' at hs
    split at hs <;> cases hs <;> exact ⟨hI.settled, hI.uids, hI.known, hI.shown⟩
  | logout =>
    change (if s.authontificated then _ else _) = some s' at hs
    split at hs <;> cases hs <;> exact ⟨hI.settled, hI.uids, hI.known, hI.shown⟩

lemma statInvariant_initial (ipcUid : CStr) : StatInvariant D (initial ipcUid) where
  settled y v hv := by
    rw [show (initial ipcUid : StatServer F).vars = .create from rfl, AssArr.getValue_create] at hv
    cases hv
  uids := nofun
  known := nofun
  shown := nofun

/-- In runs in which every step is traceable, the lines tell a client the variables after every
callback, and no line tells it a text that it was told last. -/
theorem stat_no_lost_update (hD : D.Printing) {ipcUid : CStr} {es : List (StatEvent F)}
    {x : CStr} {val : Value F}
    (hr : Run (Guarded (Traceable D) (StatStep D)) (initial ipcUid) es s)
    (hs : Guarded (Traceable D) (StatStep D) s (.set x val) s') :
    (s'.registered → 7 ≤ s'.access → s'.UpToDate D) ∧
      ∀ line, s'.line = some line → s.New line := by
  have hI : StatInvariant D s :=
    hr.invariant (fun _ _ _ => statInvariant_step hD) (statInvariant_initial ipcUid)
  obtain ⟨-, hview, hline⟩ := set_step hD hI hs.1 hs.2
  exact ⟨fun hreg _ => hview hreg, hline⟩

/-! ## An update that is lost -/

/-- A text that is no number replaces another one, and nothing else is new. -/
lemma changes_untyped {x t : CStr} {v c : FlexVal F} {vars : AssArr (FlexVal F)}
    (hv : s.vars.getValue x = some v) (hvt : v.type = .undefined)
    (hc : s.cache.getValue x = some c) (hct : c.type = .undefined)
    (ht : isNumber (FlexVal.bufferText t) = false)
    (hother : ∀ y w, y ≠ x → s.vars.getValue y = some w → changed D s.cache (y, w) = false)
    (hvars : setVar D s.vars x (.string t) = some vars) : changes D vars s.cache = [] := by
  obtain ⟨v', hassign, hget⟩ := getValue_setVar hvars
  rw [hv, Option.getD_some] at hassign
  have hv' : v'.type = .undefined := by
    obtain ⟨-, rfl⟩ := setString_eq_some_iff.1 hassign
    rw [type_evalFromString, ht]
    exact hvt
  refine List.filter_eq_nil_iff.2 ?_
  rintro ⟨y, w⟩ he
  rw [AssArr.mem_entries, hget] at he
  dsimp only at he
  split at he
  · next hy =>
    cases he
    simp [changed, hy, hc, FlexVal.same, hv', hct]
  · next hy => simp [hother y w hy he]

/-- A text that is no number replaces another one. Neither value nor copy has a type, so
that `flexval_cmp` does not look at the texts. -/
theorem untyped_text_not_sent (hr : s.review.registered) {x t : CStr} {v c : FlexVal F}
    (hv : s.vars.getValue x = some v) (hvt : v.type = .undefined)
    (hc : s.cache.getValue x = some c) (hct : c.type = .undefined)
    (ht : isNumber (FlexVal.bufferText t) = false)
    (hs : StatStep D s (.set x (.string t)) s') :
    s'.registered ∧ s'.access = s.access ∧ s'.view x = s.view x ∧
      (s'.vars.getValue x).map (FlexVal.serialize D) = some (quote (FlexVal.bufferText t)) := by
  obtain ⟨vars, hvars, hcb⟩ := set_calledBack hr hs
  obtain ⟨v', hassign, hget⟩ := getValue_setVar hvars
  rw [hv, Option.getD_some] at hassign
  have hx : vars.getValue x = some v' := (hget x).trans (if_pos rfl)
  have hv' : v'.type = .undefined ∧ v'.pchar = FlexVal.bufferText t := by
    obtain ⟨-, rfl⟩ := setString_eq_some_iff.1 hassign
    refine ⟨?_, pchar_evalFromString⟩
    rw [type_evalFromString, ht]
    exact hvt
  have hsame : changed D s.cache (x, v') = false := by
    simp [changed, hc, FlexVal.same, hv'.1, hct]
  have hsent := hcb.sent x
  rw [lookup_changes] at hsent
  dsimp only [quiet] at hsent
  rw [hx, Option.filter_some, hsame] at hsent
  refine ⟨hcb.registered, hcb.access, ?_, ?_⟩
  · rw [hcb.view, hsent]
    simp [quiet]
  · rw [hcb.vars, hx, Option.map_some, FlexVal.serialize_eq, hv'.1, hv'.2]

end Runs

lemma wholeDoubles_printing : wholeDoubles.Printing where
  ne_printLong r x h := by
    have hdot : '.' ∈ printLong x := by
      rw [← h]
      simp [wholeDoubles]
    exact notMem_printLong (by decide) (by decide) x hdot
  ne_quote r s h := by
    rcases List.append_eq_cons_iff.1 h with ⟨-, hdot⟩ | ⟨cs, hr, -⟩
    · simp at hdot
    · have hq : '"' ∈ printLong r := by
        rw [hr]
        exact List.mem_cons_self
      exact notMem_printLong (by decide) (by decide) r hq

/-- An administrator that has just registered. -/
def watching : StatServer ℤ :=
  { StatServer.initial "c1".toList with
    authontificated := true, access := 7, ipcUid := [], registered := true }

lemma run_watching : Run (Guarded (Traceable wholeDoubles) (StatStep wholeDoubles))
    (StatServer.initial "c1".toList) [.login 7, .register] watching := by
  have hlogin : Guarded (Traceable wholeDoubles) (StatStep wholeDoubles)
      (StatServer.initial "c1".toList) (.login 7)
      { StatServer.initial "c1".toList with authontificated := true, access := 7 } :=
    ⟨trivial, rfl⟩
  have hregister : Guarded (Traceable wholeDoubles) (StatStep wholeDoubles)
      { StatServer.initial "c1".toList with authontificated := true, access := 7 } .register
      watching :=
    ⟨fun _ _ => AssArr.entries_create, rfl⟩
  exact (Run.nil.cons hregister).cons hlogin

lemma statInvariant_watching : StatInvariant wholeDoubles watching :=
  run_watching.invariant (fun _ _ _ => statInvariant_step wholeDoubles_printing)
    (statInvariant_initial _)

lemma getValue_watching (y : CStr) : watching.vars.getValue y = none ∧
    watching.cache.getValue y = none :=
  ⟨AssArr.getValue_create, AssArr.getValue_create⟩

/-- The variables after the first assignment. -/
lemma entries_first {x : CStr} {val : Value ℤ} {v : FlexVal ℤ} {vars : AssArr (FlexVal ℤ)}
    (hv : val.assign wholeDoubles (FlexVal.create wholeDoubles) = some v)
    (hvars : setVar wholeDoubles watching.vars x val = some vars) : vars.entries = [(x, v)] := by
  obtain ⟨v', hv', hget⟩ := getValue_setVar hvars
  rw [(getValue_watching x).1, Option.getD_none, hv] at hv'
  cases hv'
  have hmem : ∀ e, e ∈ vars.entries ↔ e ∈ [(x, v)] := by
    rintro ⟨y, w⟩
    rw [AssArr.mem_entries, hget, (getValue_watching y).1, List.mem_singleton, Prod.mk.injEq]
    split_ifs with hy
    · have hyx : y = x := hy
      simp [hyx, eq_comm]
    · have hyx : y ≠ x := hy
      simp [hyx]
  have hperm : vars.entries.Perm [(x, v)] :=
    (List.perm_ext_iff_of_nodup (List.Nodup.of_map _ vars.nodup_entries)
      (List.nodup_singleton _)).2 hmem
  exact List.perm_singleton.1 hperm

lemma changes_first {x : CStr} {val : Value ℤ} {v : FlexVal ℤ} {vars : AssArr (FlexVal ℤ)}
    (hv : val.assign wholeDoubles (FlexVal.create wholeDoubles) = some v)
    (hvars : setVar wholeDoubles watching.vars x val = some vars) :
    changes wholeDoubles vars watching.cache = [(x, v)] := by
  rw [changes, entries_first hv hvars, List.filter_cons_of_pos]
  · rfl
  · rw [changed, (getValue_watching x).2]
    rfl

/-- The first assignment, of a value that can be copied and sent. -/
lemma exists_first_set (x : CStr) (val : Value ℤ) {v : FlexVal ℤ} (hx : 0 ≤ assarrHash x)
    (hv : val.assign wholeDoubles (FlexVal.create wholeDoubles) = some v)
    (hf : v.Followed wholeDoubles none none) (hsend : Sendable wholeDoubles (x, v))
    (hfits : LineFits wholeDoubles [(x, v)]) :
    ∃ s, Guarded (Traceable wholeDoubles) (StatStep wholeDoubles) watching (.set x val) s := by
  obtain ⟨s, hs⟩ := exists_set_step statInvariant_watching x val hx (by
    rw [(getValue_watching x).1, Option.getD_none, hv]
    rfl) (fun vars hvars => by
      rw [changes_first hv hvars]
      unfold LineFits at hfits
      omega)
  refine ⟨s, fun _ vars hvars => ?_, hs⟩
  rw [changes_first hv hvars, entries_first hv hvars]
  refine ⟨nofun, by simpa using hsend, hfits, ?_⟩
  rw [List.forall_mem_singleton, (getValue_watching x).2]
  exact hf

theorem stat_no_lost_update_first : ∃ s', s'.registered ∧ s'.access = 7 ∧
    StatStep wholeDoubles watching (.set "a".toList (.int 5)) s' ∧ s'.UpToDate wholeDoubles := by
  obtain ⟨s, hs⟩ := exists_first_set "a".toList (.int 5) (by decide) rfl (by decide) (by decide)
    (by decide)
  obtain ⟨vars, -, hcb⟩ := set_calledBack rfl hs.2
  have hacc : s.access = 7 := hcb.access
  have h := stat_no_lost_update wholeDoubles_printing run_watching hs
  exact ⟨s, hcb.registered, hacc, hs.2, h.1 hcb.registered hacc.ge⟩

/-- `a` is set to `x` and then to `y`. The client keeps `x`. -/
theorem stat_update_lost : ¬∀ (es : List (StatEvent ℤ)) (s s' : StatServer ℤ) (x : CStr)
    (val : Value ℤ), Run (StatStep wholeDoubles) (StatServer.initial "c1".toList) es s →
      StatStep wholeDoubles s (.set x val) s' →
      (s'.registered → 7 ≤ s'.access → s'.UpToDate wholeDoubles) ∧
      ∀ line, s'.line = some line → s.New line := by
  intro hall
  obtain ⟨s, hs⟩ := exists_first_set "a".toList (.string "x".toList) (by decide) rfl (by decide)
    (by decide) (by decide)
  have hrun := Run.snoc run_watching hs
  have hI := statInvariant_step wholeDoubles_printing statInvariant_watching hs
  obtain ⟨vars, hvars, hcb⟩ := set_calledBack rfl hs.2
  have hreg : s.review.registered := by
    unfold review
    rw [if_neg (not_not.2 hcb.uids)]
    exact hcb.registered
  obtain ⟨v, hassign, hget⟩ := getValue_setVar hvars
  have hv : s.vars.getValue "a".toList = some v := by
    rw [hcb.vars]
    exact (hget _).trans (if_pos rfl)
  obtain rfl : ⟨0, 0, "x".toList, .undefined, 0, []⟩ = v := Option.some.inj hassign
  have hview : s.view "a".toList = some (quote "x".toList) := by
    obtain ⟨-, -, hknown⟩ := set_known wholeDoubles_printing statInvariant_watching hs.1 hs.2 rfl
    rw [(hknown _).2.1, hv]
    rfl
  obtain ⟨-, hnone⟩ | ⟨w, c, hw, hc, -, hsame, -⟩ := hI.known hcb.registered "a".toList
  · rw [hview] at hnone
    cases hnone
  · have hct : c.type = .undefined := by
      rw [← FlexVal.type_eq_of_same hsame]
      rw [hv] at hw
      cases hw
      rfl
    have hother : ∀ y w, y ≠ "a".toList → s.vars.getValue y = some w →
        changed wholeDoubles s.cache (y, w) = false := by
      intro y w hy hw
      rw [hcb.vars, hget, if_neg hy, (getValue_watching y).1] at hw
      cases hw
    have hchanges : ∀ vars, setVar wholeDoubles s.vars "a".toList (.string "y".toList) = some vars →
        changes wholeDoubles vars s.cache = [] := fun vars =>
      changes_untyped hv rfl hc hct (by decide) hother
    obtain ⟨s', hs'⟩ := exists_set_step hI "a".toList (.string "y".toList) (by decide) (by
      rw [hv]
      rfl) (fun vars hvars => by
        rw [hchanges vars hvars]
        decide)
    obtain ⟨hreg', hacc', hsame', hser⟩ :=
      untyped_text_not_sent hreg hv rfl hc hct (by decide) hs'
    have huptodate := (hall _ s s' _ _ hrun.of_guarded hs').1 hreg' (by
      rw [hacc', hcb.access]
      exact le_rfl)
    obtain ⟨vars', hvars', hcb'⟩ := set_calledBack hreg hs'
    have hshown : Shown s' := by
      refine (hcb'.shown (hI.shown hcb.registered) fun _ => ?_).1
      dsimp only [quiet]
      rw [hchanges vars' hvars']
      exact ⟨by simp, by decide⟩
    obtain ⟨fuel₁, hlines⟩ := hshown [] []
    obtain ⟨fuel₂, view, hlines', hget'⟩ := huptodate [] []
    have hsome := (hlines _ (le_max_left fuel₁ fuel₂)).symm.trans
      (hlines' _ (le_max_right fuel₁ fuel₂))
    obtain rfl := Option.some.inj hsome
    have hshows := hget' "a".toList
    rw [hsame', hview, hser] at hshows
    exact absurd hshows (by decide)

end WebTester.Stat
