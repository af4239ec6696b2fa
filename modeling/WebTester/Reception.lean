import WebTester.Belts
import WebTester.RegexpMatch

/-!
# Reception of a task list

`webiface_get_task_list` with its buffers, and the texts that it reads as they are meant. The
queue and the belts are the lists of their pairs of solution and library; `deleted` are the pairs
for which `webiface_delete_task` was called.
-/
namespace WebTester.Reception
open CString TaskList Preg

/-! ## The list of tasks -/

structure State where
  queue : List (ℤ × ℤ)
  deleted : List (ℤ × ℤ)
  taked : ℕ
  deriving DecidableEq, Repr

/-- A task that was read is appended unless it is in the queue or in the belts. -/
def State.offer (s : State) (belts : List (ℤ × ℤ)) (k : ℤ × ℤ) : State :=
  if s.queue.contains k then s
  else if belts.contains k then s
  else ⟨s.queue ++ [k], s.deleted ++ [k], s.taked + 1⟩

/-- `webiface_get_task_list` for a reply with a body. -/
def webifaceGetTaskList (queueSize : ℤ) (queue belts : List (ℤ × ℤ)) (reply : CStr) :
    Option State :=
  if queueSize ≤ queue.length then some ⟨queue, [], 0⟩
  else receive (fun s : State => (queueSize - queue.length).toNat ≤ s.taked)
    (fun s k => s.offer belts k) reply ⟨queue, [], 0⟩

/-! ## Bodies -/

/-- A task in the body: two numbers of at least one digit. -/
structure Entry where
  sid : CStr
  lid : CStr
  sid_ne : sid ≠ []
  lid_ne : lid ≠ []
  sid_digits : ∀ c ∈ sid, c.isDigit = true
  lid_digits : ∀ c ∈ lid, c.isDigit = true

namespace Entry

def text (e : Entry) : CStr := e.sid ++ '@' :: e.lid

/-- The pair of a solution and a library. -/
def pair (e : Entry) : ℤ × ℤ := (digitsValue e.sid, digitsValue e.lid)

/-- The pair as the loop reads it. -/
def read (e : Entry) : ℤ × ℤ := (atol e.sid, atoi e.lid)

/-- The numbers are a `long` and an `int`. -/
def InRange (e : Entry) : Prop := digitsValue e.sid < 2 ^ 63 ∧ digitsValue e.lid < 2 ^ 31

/-- The digits fit into their buffers. -/
def Fits (e : Entry) : Prop := e.sid.length < sidSize ∧ e.lid.length < tokenSize

instance (e : Entry) : Decidable e.InRange := inferInstanceAs (Decidable (_ ∧ _))

instance (e : Entry) : Decidable e.Fits := inferInstanceAs (Decidable (_ ∧ _))

end Entry

/-- A body: lines that end, and perhaps a last one that does not. -/
def bodyOf (lines : List Entry) (last : Option Entry) : CStr :=
  lines.flatMap (fun e => e.text ++ ['\n']) ++ last.elim [] Entry.text

def entries (lines : List Entry) (last : Option Entry) : List Entry := lines ++ last.toList

section Matching

lemma linesMatch_sid {ds : CStr} (hds : ∀ c ∈ ds, c.isDigit = true) (rest : CStr) :
    linesMatch .sid (ds ++ '@' :: rest) = linesMatch .separator rest := by
  induction ds with
  | nil => simp [linesMatch]
  | cons c ds ih =>
    have hc := hds c List.mem_cons_self
    have hat : (c == '@') = false := by
      rw [beq_eq_false_iff_ne]
      rintro rfl
      exact absurd hc (by decide)
    rw [List.cons_append, linesMatch, hc, hat, Bool.true_and, Bool.false_and, Bool.or_false,
      ih fun d hd => hds d (List.mem_cons_of_mem c hd)]

lemma linesMatch_lid {ds : CStr} (hds : ∀ c ∈ ds, c.isDigit = true) (rest : CStr) :
    linesMatch .lid (ds ++ rest) = linesMatch .lid rest := by
  induction ds with
  | nil => rfl
  | cons c ds ih =>
    have hc := hds c List.mem_cons_self
    have hline : (c == '\n') = false := by
      rw [beq_eq_false_iff_ne]
      rintro rfl
      exact absurd hc (by decide)
    rw [List.cons_append, linesMatch, hc, hline, Bool.true_and, Bool.false_and, Bool.or_false,
      ih fun d hd => hds d (List.mem_cons_of_mem c hd)]

/-- A task takes the matcher from the beginning of a line to its end. -/
lemma linesMatch_text (e : Entry) (rest : CStr) :
    linesMatch .lineStart (e.text ++ rest) = linesMatch .lid rest := by
  obtain ⟨sid, lid, hsid, hlid, hsids, hlids⟩ := e
  obtain ⟨s, sid, rfl⟩ := List.exists_cons_of_ne_nil hsid
  obtain ⟨l, lid, rfl⟩ := List.exists_cons_of_ne_nil hlid
  obtain ⟨hs, hsids⟩ := List.forall_mem_cons.1 hsids
  obtain ⟨hl, hlids⟩ := List.forall_mem_cons.1 hlids
  have htext : Entry.text ⟨s :: sid, l :: lid, hsid, hlid, ‹_›, ‹_›⟩ ++ rest =
      s :: (sid ++ '@' :: (l :: (lid ++ rest))) := by simp [Entry.text]
  rw [htext, linesMatch, hs, Bool.true_and, linesMatch_sid hsids, linesMatch, hl, Bool.true_and,
    linesMatch_lid hlids]

lemma linesMatch_bodyOf (lines : List Entry) (last : Option Entry) :
    linesMatch .lineStart (bodyOf lines last) = true := by
  induction lines with
  | nil =>
    cases last with
    | none => rfl
    | some e =>
      have hend := linesMatch_text e []
      rw [List.append_nil] at hend
      exact hend
  | cons e lines ih =>
    have hbody : bodyOf (e :: lines) last = e.text ++ '\n' :: bodyOf lines last := by
      simp [bodyOf]
    rw [hbody, linesMatch_text e, linesMatch]
    simp [ih]

/-- A place in a solution: the rest of the digits, and the separator. -/
lemma of_linesMatch_sid {cs : CStr} (h : linesMatch .sid cs = true) :
    ∃ ds rest, (∀ c ∈ ds, c.isDigit = true) ∧ cs = ds ++ '@' :: rest ∧
      linesMatch .separator rest = true := by
  induction cs with
  | nil => cases h
  | cons c cs ih =>
    rw [linesMatch, Bool.or_eq_true, Bool.and_eq_true, Bool.and_eq_true, beq_iff_eq] at h
    rcases h with ⟨hc, h⟩ | ⟨rfl, h⟩
    · obtain ⟨ds, rest, hds, rfl, hrest⟩ := ih h
      exact ⟨c :: ds, rest, List.forall_mem_cons.2 ⟨hc, hds⟩, rfl, hrest⟩
    · exact ⟨[], cs, List.forall_mem_nil _, rfl, h⟩

/-- A place in a library: the rest of the digits, and the end of the text or of the line. -/
lemma of_linesMatch_lid {cs : CStr} (h : linesMatch .lid cs = true) :
    ∃ ds rest, (∀ c ∈ ds, c.isDigit = true) ∧ cs = ds ++ rest ∧
      (rest = [] ∨ ∃ cs, rest = '\n' :: cs ∧ linesMatch .lineStart cs = true) := by
  induction cs with
  | nil => exact ⟨[], [], List.forall_mem_nil _, rfl, .inl rfl⟩
  | cons c cs ih =>
    rw [linesMatch, Bool.or_eq_true, Bool.and_eq_true, Bool.and_eq_true, beq_iff_eq] at h
    rcases h with ⟨hc, h⟩ | ⟨rfl, h⟩
    · obtain ⟨ds, rest, hds, rfl, hrest⟩ := ih h
      exact ⟨c :: ds, rest, List.forall_mem_cons.2 ⟨hc, hds⟩, rfl, hrest⟩
    · exact ⟨[], '\n' :: cs, List.forall_mem_nil _, rfl, .inr ⟨cs, rfl, h⟩⟩

/-- What passes from the beginning of a line consists of tasks. -/
lemma exists_bodyOf {cs : CStr} (h : linesMatch .lineStart cs = true) :
    ∃ lines last, cs = bodyOf lines last := by
  induction hn : cs.length using Nat.strong_induction_on generalizing cs with
  | _ n ih =>
    subst hn
    cases cs with
    | nil => exact ⟨[], none, rfl⟩
    | cons c cs =>
      rw [linesMatch, Bool.and_eq_true] at h
      obtain ⟨hc, h⟩ := h
      obtain ⟨ds, rest, hds, rfl, hsep⟩ := of_linesMatch_sid h
      cases rest with
      | nil => cases hsep
      | cons d rest =>
        rw [linesMatch, Bool.and_eq_true] at hsep
        obtain ⟨hd, hlid⟩ := hsep
        obtain ⟨ls, rest, hls, rfl, hend⟩ := of_linesMatch_lid hlid
        let e : Entry := ⟨c :: ds, d :: ls, List.cons_ne_nil c ds, List.cons_ne_nil d ls,
          List.forall_mem_cons.2 ⟨hc, hds⟩, List.forall_mem_cons.2 ⟨hd, hls⟩⟩
        rcases hend with rfl | ⟨cs, rfl, hline⟩
        · exact ⟨[], some e, by simp [bodyOf, e, Entry.text]⟩
        · obtain ⟨lines, last, rfl⟩ := ih cs.length (by simp; omega) hline rfl
          exact ⟨e :: lines, last, by simp [bodyOf, e, Entry.text]⟩

/-- The `$` of the check passes a newline that ends the text. -/
lemma exists_bodyOf_of_grammarMatch {body : CStr} (h : grammarMatch body = true) :
    ∃ lines last tail, body = bodyOf lines last ++ tail ∧ (tail = [] ∨ tail = ['\n']) := by
  rw [grammarMatch, Bool.or_eq_true, Bool.and_eq_true, beq_iff_eq] at h
  rcases h with h | ⟨hlast, h⟩
  · obtain ⟨lines, last, rfl⟩ := exists_bodyOf h
    exact ⟨lines, last, [], (List.append_nil _).symm, .inl rfl⟩
  · obtain ⟨lines, last, hbody⟩ := exists_bodyOf h
    obtain ⟨ys, rfl⟩ := List.getLast?_eq_some_iff.1 hlast
    rw [List.dropLast_concat] at hbody
    exact ⟨lines, last, ['\n'], by rw [hbody], .inr rfl⟩

end Matching

/-! ## The tasks that are new -/

/-- Neither in the queue nor in the belts. -/
def isNew (queue belts : List (ℤ × ℤ)) (k : ℤ × ℤ) : Bool := !queue.contains k && !belts.contains k

/-- The pairs that are neither in the queue nor in the belts, each at its first place. -/
def fresh (queue belts ks : List (ℤ × ℤ)) : List (ℤ × ℤ) :=
  (ks.filter (isNew queue belts)).eraseDups

/-- The pairs that a body is to append to a queue with this much room. -/
def accepted (queue belts : List (ℤ × ℤ)) (room : ℕ) (es : List Entry) : List (ℤ × ℤ) :=
  (fresh queue belts (es.map Entry.pair)).take room

/-- The tasks that come before the queue is full fit into the buffers. -/
def FitWhileRead (queue belts : List (ℤ × ℤ)) (room : ℕ) (es : List Entry) : Prop :=
  ∀ before e after, es = before ++ e :: after →
    (fresh queue belts (before.map Entry.pair)).length < room → e.Fits

section Fresh

variable {queue belts : List (ℤ × ℤ)} {k : ℤ × ℤ}

lemma fresh_nil : fresh queue belts [] = [] := rfl

lemma fresh_singleton_old (h : isNew queue belts k = false) : fresh queue belts [k] = [] := by
  rw [fresh, List.filter_cons_of_neg (by simp [h])]
  rfl

lemma fresh_singleton_new (h : isNew queue belts k = true) : fresh queue belts [k] = [k] := by
  rw [fresh, List.filter_cons_of_pos h]
  simp [List.eraseDups_cons]

lemma length_fresh_singleton_le (queue belts : List (ℤ × ℤ)) (k : ℤ × ℤ) :
    (fresh queue belts [k]).length ≤ 1 := by
  cases h : isNew queue belts k with
  | false => simp [fresh_singleton_old h]
  | true => simp [fresh_singleton_new h]

/-- After the first pair, what is new is new to the queue with this pair. -/
lemma fresh_cons (queue belts : List (ℤ × ℤ)) (k : ℤ × ℤ) (ks : List (ℤ × ℤ)) :
    fresh queue belts (k :: ks) =
      fresh queue belts [k] ++ fresh (queue ++ fresh queue belts [k]) belts ks := by
  cases h : isNew queue belts k with
  | false =>
    rw [fresh_singleton_old h, List.append_nil, List.nil_append, fresh,
      List.filter_cons_of_neg (by simp [h]), fresh]
  | true =>
    rw [fresh_singleton_new h, fresh, List.filter_cons_of_pos h, List.eraseDups_cons,
      List.filter_filter, List.singleton_append, fresh]
    congr 2
    refine List.filter_congr fun x _ => ?_
    by_cases hx : x = k
    · simp [isNew, hx]
    · simp [isNew, hx]

/-- An offer appends what is new. -/
lemma offer_eq (s : State) (belts : List (ℤ × ℤ)) (k : ℤ × ℤ) :
    s.offer belts k =
      ⟨s.queue ++ fresh s.queue belts [k], s.deleted ++ fresh s.queue belts [k],
        s.taked + (fresh s.queue belts [k]).length⟩ := by
  cases h : isNew s.queue belts k with
  | false =>
    rw [fresh_singleton_old h]
    unfold State.offer
    split_ifs with hq hb
    · simp
    · simp
    · rw [isNew, Bool.eq_false_iff.2 hq, Bool.eq_false_iff.2 hb] at h
      cases h
  | true =>
    obtain ⟨hq, hb⟩ : s.queue.contains k = false ∧ belts.contains k = false := by
      simpa [isNew] using h
    rw [fresh_singleton_new h, State.offer, hq, hb]
    rfl

end Fresh

section FitWhileRead

variable {queue belts : List (ℤ × ℤ)} {room : ℕ}

lemma fitWhileRead_nil : FitWhileRead queue belts room [] := by
  intro before e after h
  simp at h

lemma fitWhileRead_zero (es : List Entry) : FitWhileRead queue belts 0 es :=
  fun _ _ _ _ h => absurd h (Nat.not_lt_zero _)

lemma fitWhileRead_of_forall {es : List Entry} (h : ∀ e ∈ es, e.Fits) :
    FitWhileRead queue belts room es := by
  rintro before e after rfl _
  exact h e (by simp)

lemma fitWhileRead_cons (hroom : 0 < room) (e : Entry) (es : List Entry) :
    FitWhileRead queue belts room (e :: es) ↔
      e.Fits ∧ FitWhileRead (queue ++ fresh queue belts [e.pair]) belts
        (room - (fresh queue belts [e.pair]).length) es := by
  constructor
  · intro h
    refine ⟨h [] e es rfl hroom, fun before f after hes hlt => ?_⟩
    refine h (e :: before) f after (by rw [hes, List.cons_append]) ?_
    rw [List.map_cons, fresh_cons, List.length_append]
    omega
  · rintro ⟨he, hes⟩ before f after heq hlt
    cases before with
    | nil =>
      obtain ⟨rfl, -⟩ := List.cons_eq_cons.1 heq
      exact he
    | cons b before =>
      obtain ⟨rfl, htail⟩ := List.cons_eq_cons.1 heq
      refine hes before f after htail ?_
      rw [List.map_cons, fresh_cons, List.length_append] at hlt
      omega

end FitWhileRead

/-! ## The loop over entries -/

section Entries

variable {σ : Type} (full : σ → Prop) [DecidablePred full] (offer : σ → ℤ × ℤ → σ)

/-- The loop of the source, entry by entry. -/
def takeEntries : List Entry → σ → Option σ
  | [], s => some s
  | e :: es, s =>
    if full s then some s
    else if e.Fits then takeEntries es (offer s e.read)
    else none

/-- The entries that are read until enough tasks are taken fit into the buffers. -/
def ReadsFit : List Entry → σ → Prop
  | [], _ => True
  | e :: es, s => full s ∨ (e.Fits ∧ ReadsFit es (offer s e.read))

lemma takeEntries_isSome_iff {es : List Entry} {s : σ} :
    (takeEntries full offer es s).isSome ↔ ReadsFit full offer es s := by
  induction es generalizing s with
  | nil => exact iff_of_true rfl trivial
  | cons e es ih =>
    rw [takeEntries, ReadsFit]
    split_ifs with hfull hfits
    · exact iff_of_true rfl (.inl hfull)
    · simp [hfull, hfits, ih]
    · simp [hfull, hfits]

end Entries

/-- The numbers of a task are converted to its pair. -/
lemma Entry.read_eq {e : Entry} (h : e.InRange) : e.read = e.pair := by
  obtain ⟨hsid, hlid⟩ := h
  rw [Entry.read, Entry.pair, atoi, atol_digits e.sid_ne e.sid_digits hsid,
    atol_digits e.lid_ne e.lid_digits (by omega), toInt, Int.bmod_eq_of_le (by omega) (by omega)]

/-- The loop appends what is accepted, as long as the entries fit. -/
lemma takeEntries_eq_some_iff {belts : List (ℤ × ℤ)} {need : ℕ} {es : List Entry}
    (hrange : ∀ e ∈ es, e.InRange) {s r : State} :
    takeEntries (fun s => need ≤ s.taked) (fun s k => s.offer belts k) es s = some r ↔
      FitWhileRead s.queue belts (need - s.taked) es ∧
        r = ⟨s.queue ++ accepted s.queue belts (need - s.taked) es,
          s.deleted ++ accepted s.queue belts (need - s.taked) es,
          s.taked + (accepted s.queue belts (need - s.taked) es).length⟩ := by
  induction es generalizing s with
  | nil =>
    simp only [takeEntries, Option.some.injEq, accepted, List.map_nil, fresh_nil, List.take_nil,
      List.append_nil, List.length_nil, Nat.add_zero, fitWhileRead_nil, true_and]
    exact eq_comm
  | cons e es ih =>
    obtain ⟨he, hes⟩ := List.forall_mem_cons.1 hrange
    rw [takeEntries, Entry.read_eq he]
    by_cases hfull : need ≤ s.taked
    · rw [if_pos hfull, Nat.sub_eq_zero_of_le hfull]
      simp only [Option.some.injEq, accepted, List.take_zero, List.append_nil, List.length_nil,
        Nat.add_zero, fitWhileRead_zero, true_and]
      exact eq_comm
    · have hroom : 0 < need - s.taked := by omega
      have hle := length_fresh_singleton_le s.queue belts e.pair
      have htake : accepted s.queue belts (need - s.taked) (e :: es) =
          fresh s.queue belts [e.pair] ++ accepted (s.queue ++ fresh s.queue belts [e.pair]) belts
            (need - s.taked - (fresh s.queue belts [e.pair]).length) es := by
        rw [accepted, List.map_cons, fresh_cons, List.take_append,
          List.take_of_length_le (hle.trans hroom)]
        rfl
      rw [if_neg hfull, fitWhileRead_cons hroom, htake]
      by_cases hfits : e.Fits
      · rw [if_pos hfits, ih hes, offer_eq]
        simp only [hfits, true_and, Nat.sub_sub, List.append_assoc, List.length_append,
          Nat.add_assoc]
      · simp [hfits]

section Loop

variable {σ : Type} {full : σ → Prop} [DecidablePred full] {offer : σ → ℤ × ℤ → σ}

section Collecting

lemma isTokenChar_of_isDigit {c : Char} (hc : c.isDigit = true) : isTokenChar c = true := by
  simp [isTokenChar, hc]

/-- Digits are added to the token while there is room. -/
lemma collect_digits {ds : CStr} (hds : ∀ c ∈ ds, c.isDigit = true) (sid rest : CStr)
    {token : CStr} (htoken : token.length ≤ tokenSize) :
    collect sid token (ds ++ rest) =
      if token.length + ds.length ≤ tokenSize then collect sid (token ++ ds) rest else none := by
  induction ds generalizing token with
  | nil => simp [htoken]
  | cons c ds ih =>
    have hc := hds c List.mem_cons_self
    have hat : (c == '@') = false := by
      rw [beq_eq_false_iff_ne]
      rintro rfl
      exact absurd hc (by decide)
    rw [List.cons_append, collect, hat, if_neg (by decide), if_pos hc, List.length_cons]
    by_cases hlt : token.length < tokenSize
    · rw [if_pos hlt, ih (fun d hd => hds d (List.mem_cons_of_mem c hd)) (by simp; omega)]
      simp only [List.length_append, List.length_singleton, List.append_assoc,
        List.singleton_append, Nat.add_assoc, Nat.add_comm 1]
    · rw [if_neg hlt, if_neg (by omega)]

/-- Both numbers of a task are collected; the library may fill the whole token. -/
lemma collect_text (e : Entry) {rest : CStr} (hrest : ∀ c ∈ rest.head?, isTokenChar c = false) :
    collect [] [] (e.text ++ rest) =
      if e.sid.length < sidSize ∧ e.lid.length ≤ tokenSize then some (e.sid, e.lid, rest)
      else none := by
  have hsize : sidSize ≤ tokenSize := by decide
  have hstop : collect e.sid e.lid rest = some (e.sid, e.lid, rest) := by
    cases rest with
    | nil => rfl
    | cons c cs =>
      have hc : isTokenChar c = false := hrest c rfl
      simp only [isTokenChar, Bool.or_eq_false_iff] at hc
      simp [collect, hc.1, hc.2]
  have hlid : collect e.sid [] (e.lid ++ rest) =
      if e.lid.length ≤ tokenSize then some (e.sid, e.lid, rest) else none := by
    rw [collect_digits e.lid_digits _ _ (Nat.zero_le _), List.length_nil, Nat.zero_add,
      List.nil_append, hstop]
  have hat : collect [] e.sid ('@' :: (e.lid ++ rest)) =
      if e.sid.length < sidSize then collect e.sid [] (e.lid ++ rest) else none := rfl
  rw [Entry.text, List.append_assoc, List.cons_append,
    collect_digits e.sid_digits _ _ (Nat.zero_le _), List.length_nil, Nat.zero_add,
    List.nil_append, hat, hlid]
  split_ifs <;> first | rfl | omega

/-- One turn of the loop, at a task. -/
lemma receiveLoop_text {fuel : ℕ} {s : σ} {gap : CStr}
    (hgap : ∀ c ∈ gap, isTokenChar c = false) {e : Entry} {rest : CStr}
    (hrest : ∀ c ∈ rest.head?, isTokenChar c = false) :
    receiveLoop full offer (fuel + 1) (gap ++ (e.text ++ rest)) s =
      if full s then some s
      else if e.Fits then receiveLoop full offer fuel rest (offer s e.read)
      else none := by
  have hskip : (gap ++ (e.text ++ rest)).dropWhile (fun c => !isTokenChar c) = e.text ++ rest := by
    rw [List.dropWhile_append_of_pos (by simpa using hgap)]
    obtain ⟨d, ds, hsid⟩ := List.exists_cons_of_ne_nil e.sid_ne
    have hd := e.sid_digits d (by simp [hsid])
    rw [Entry.text, hsid, List.cons_append, List.cons_append,
      List.dropWhile_cons_of_neg (by simp [isTokenChar_of_isDigit hd])]
  obtain ⟨c, cs, hcs⟩ : ∃ c cs, gap ++ (e.text ++ rest) = c :: cs := by
    refine List.exists_cons_of_ne_nil ?_
    simp [Entry.text]
  rw [hcs] at hskip ⊢
  rw [receiveLoop, hskip, collect_text e hrest]
  refine if_congr Iff.rfl rfl ?_
  by_cases hsid : e.sid.length < sidSize ∧ e.lid.length ≤ tokenSize
  · rw [if_pos hsid]
    simp [e.sid_ne, e.lid_ne, Entry.Fits, Entry.read, hsid.1]
  · have hfits : ¬e.Fits := fun h => hsid ⟨h.1, h.2.le⟩
    rw [if_neg hsid, if_neg hfits]
    rfl

end Collecting

section Bodies

variable {lines : List Entry} {last : Option Entry}

lemma bodyOf_cons (e : Entry) (lines : List Entry) (last : Option Entry) :
    bodyOf (e :: lines) last = e.text ++ '\n' :: bodyOf lines last := by
  simp [bodyOf]

/-- The loop over a body is the loop over its entries. The gap is the newline that ends the line
before, and a newline may follow. -/
lemma receiveLoop_bodyOf {fuel : ℕ} {s : σ} {gap tail : CStr}
    (hgap : ∀ c ∈ gap, isTokenChar c = false) (htail : ∀ c ∈ tail, isTokenChar c = false)
    (hfuel : (entries lines last).length < fuel) :
    receiveLoop full offer fuel (gap ++ (bodyOf lines last ++ tail)) s =
      takeEntries full offer (entries lines last) s := by
  have hblank (fuel : ℕ) (s : σ) {blank : CStr} (h : ∀ c ∈ blank, isTokenChar c = false) :
      receiveLoop full offer (fuel + 1) blank s = some s := by
    have hskip : blank.dropWhile (fun c => !isTokenChar c) = [] := by
      simpa [List.dropWhile_eq_nil_iff] using h
    cases blank with
    | nil => rfl
    | cons c cs =>
      rw [receiveLoop, hskip]
      exact ite_self _
  induction lines generalizing fuel s gap with
  | nil =>
    obtain ⟨fuel, rfl⟩ := Nat.exists_eq_add_one_of_ne_zero (Nat.ne_zero_of_lt hfuel)
    cases last with
    | none => exact hblank fuel s (List.forall_mem_append.2 ⟨hgap, htail⟩)
    | some e =>
      obtain ⟨fuel, rfl⟩ := Nat.exists_eq_add_one_of_ne_zero
        (Nat.ne_zero_of_lt (Nat.lt_of_succ_lt_succ hfuel))
      have hhead : ∀ c ∈ tail.head?, isTokenChar c = false := fun c hc =>
        htail c (List.mem_of_mem_head? hc)
      have hbody : bodyOf [] (some e) = e.text := rfl
      rw [hbody, receiveLoop_text hgap hhead, hblank fuel _ htail]
      rfl
  | cons e lines ih =>
    obtain ⟨fuel, rfl⟩ := Nat.exists_eq_add_one_of_ne_zero (Nat.ne_zero_of_lt hfuel)
    have hnewline : isTokenChar '\n' = false := by decide
    have hentries : entries (e :: lines) last = e :: entries lines last := rfl
    rw [hentries, List.length_cons] at hfuel
    rw [bodyOf_cons, List.append_assoc, List.cons_append,
      receiveLoop_text hgap (by simp [hnewline]), hentries, takeEntries]
    have hrest := @ih fuel (offer s e.read) ['\n'] (by simp [hnewline]) (by omega)
    rw [List.singleton_append] at hrest
    rw [hrest]

lemma length_entries_le : (entries lines last).length ≤ (bodyOf lines last).length := by
  induction lines with
  | nil =>
    cases last with
    | none => exact Nat.le_refl 0
    | some e =>
      have hlid := List.length_pos_of_ne_nil e.lid_ne
      simp only [entries, bodyOf, Entry.text, List.nil_append, Option.toList_some,
        List.flatMap_nil, Option.elim_some, List.length_append, List.length_cons, List.length_nil]
      omega
  | cons e lines ih =>
    rw [bodyOf_cons, List.length_append, List.length_cons]
    have hentries : (entries (e :: lines) last).length = (entries lines last).length + 1 := rfl
    omega

lemma length_text_le {e : Entry} (he : e ∈ entries lines last) :
    e.sid.length + e.lid.length < (bodyOf lines last).length := by
  have htext : e.text.length = e.sid.length + (e.lid.length + 1) := List.length_append
  induction lines with
  | nil =>
    obtain rfl := Option.mem_toList.1 he
    have hbody : bodyOf [] (some e) = e.text := rfl
    rw [hbody]
    omega
  | cons f lines ih =>
    rw [bodyOf_cons, List.length_append, List.length_cons]
    rcases List.mem_cons.1 he with rfl | he
    · omega
    · have hle := ih he
      omega

lemma nul_notMem_bodyOf : '\x00' ∉ bodyOf lines last := by
  have htext (e : Entry) : '\x00' ∉ e.text := by
    intro h
    rcases List.mem_append.1 h with h | h
    · exact absurd (e.sid_digits _ h) (by decide)
    · rcases List.mem_cons.1 h with h | h
      · exact absurd h (by decide)
      · exact absurd (e.lid_digits _ h) (by decide)
  induction lines with
  | nil =>
    cases last with
    | none => exact List.not_mem_nil
    | some e => exact htext e
  | cons e lines ih =>
    rw [bodyOf_cons, List.mem_append, List.mem_cons]
    rintro (h | h | h)
    · exact htext e h
    · exact absurd h (by decide)
    · exact ih h

lemma copyBody_bodyOf (h : (bodyOf lines last).length < bodySize) :
    copyBody (bodyOf lines last) = bodyOf lines last := by
  rw [copyBody, List.takeWhile_eq_self_iff.2, strncpy, List.take_of_length_le]
  · exact Nat.le_of_lt_succ h
  · intro c hc
    rw [bne_iff_ne]
    rintro rfl
    exact nul_notMem_bodyOf hc

/-- A body passes the check unless it is a single task of three characters. -/
lemma taskListMatch_bodyOf (hne : bodyOf lines last ≠ []) :
    taskListMatch (bodyOf lines last) = decide ((bodyOf lines last).length ≠ 3) := by
  have hgrammar : grammarMatch (bodyOf lines last) = true := by
    rw [grammarMatch, linesMatch_bodyOf, Bool.true_or]
  rw [taskListMatch, hgrammar, Bool.true_and, decide_eq_decide, grammarPairs_le_iff hgrammar]
  exact and_iff_right hne

lemma entries_eq_nil (h : bodyOf lines last = []) : entries lines last = [] := by
  have hlen := @length_entries_le lines last
  rw [h] at hlen
  exact List.eq_nil_of_length_eq_zero (Nat.le_zero.1 hlen)

/-- In a short body everything fits. -/
lemma fitWhileRead_of_length (h : (bodyOf lines last).length ≤ sidSize)
    (queue belts : List (ℤ × ℤ)) (room : ℕ) :
    FitWhileRead queue belts room (entries lines last) := by
  refine fitWhileRead_of_forall fun e he => ?_
  have hle := length_text_le he
  have hsize : sidSize ≤ tokenSize := by decide
  exact ⟨by omega, by omega⟩

end Bodies

end Loop

/-! ## Replies that fit -/

section Readable

variable {σ : Type} (full : σ → Prop) [DecidablePred full] (offer : σ → ℤ × ℤ → σ)

/-- A reply that fits into `body`, of which every task that is read before enough are taken fits
into its buffers. -/
def Readable (reply : CStr) (s : σ) : Prop :=
  reply.length < bodySize ∧
    ∀ lines last tail, copyBody reply = bodyOf lines last ++ tail → tail = [] ∨ tail = ['\n'] →
      taskListMatch (copyBody reply) = true → ReadsFit full offer (entries lines last) s

/-- Exactly these replies are read without a write behind a buffer. -/
theorem receive_isSome_iff {reply : CStr} {s : σ} :
    (receive full offer reply s).isSome ↔ Readable full offer reply s := by
  have hnewline : isTokenChar '\n' = false := by decide
  -- The loop runs over the entries of a body that passes the check.
  have hloop {lines : List Entry} {last : Option Entry} {tail : CStr}
      (hbody : copyBody reply = bodyOf lines last ++ tail) (htail : tail = [] ∨ tail = ['\n']) :
      (receiveLoop full offer ((copyBody reply).length + 1) (copyBody reply) s).isSome ↔
        ReadsFit full offer (entries lines last) s := by
    have hblank : ∀ c ∈ tail, isTokenChar c = false := by
      rcases htail with rfl | rfl <;> simp [hnewline]
    have hfuel : (entries lines last).length < (copyBody reply).length + 1 := by
      have hle := @length_entries_le lines last
      rw [hbody, List.length_append]
      omega
    have hrun := @receiveLoop_bodyOf σ full _ offer lines last _ s [] tail (by simp) hblank hfuel
    rw [List.nil_append, ← hbody] at hrun
    rw [hrun, takeEntries_isSome_iff]
  unfold receive Readable
  by_cases hempty : reply = []
  · subst hempty
    refine iff_of_true rfl ⟨by decide, fun _ _ _ _ _ hmatch => absurd hmatch (by decide)⟩
  rw [if_neg hempty]
  by_cases hlength : reply.length < bodySize
  · rw [if_pos hlength]
    dsimp only
    by_cases hmatch : taskListMatch (copyBody reply) = true
    · rw [if_pos hmatch]
      constructor
      · exact fun h => ⟨hlength, fun lines last tail hbody htail _ => (hloop hbody htail).1 h⟩
      · intro h
        have hgrammar : grammarMatch (copyBody reply) = true := (Bool.and_eq_true_iff.1 hmatch).1
        obtain ⟨lines, last, tail, hbody, htail⟩ := exists_bodyOf_of_grammarMatch hgrammar
        exact (hloop hbody htail).2 (h.2 lines last tail hbody htail hmatch)
    · rw [if_neg hmatch]
      exact iff_of_true rfl ⟨hlength, fun _ _ _ _ _ h => absurd h hmatch⟩
  · rw [if_neg hlength]
    exact iff_of_false Bool.false_ne_true fun h => hlength h.1

end Readable

/-! ## The list that is received -/

/-- The queue is extended by these pairs, and each of them is deleted from the server. -/
def Received (queue new : List (ℤ × ℤ)) (r : Option State) : Prop :=
  ∃ s, r = some s ∧ s.queue = queue ++ new ∧ s.deleted = new

instance (queue new : List (ℤ × ℤ)) (r : Option State) : Decidable (Received queue new r) :=
  match r with
  | none => .isFalse (by simp [Received])
  | some s => decidable_of_iff (s.queue = queue ++ new ∧ s.deleted = new) (by simp [Received])

/-- A body is received as it should be exactly when it fits into its buffer, the tasks that are read
fit into theirs, and it is not a single task of three characters that is new. -/
theorem received_iff {queueSize : ℤ} {queue : List (ℤ × ℤ)} (hsize : queue.length < queueSize)
    (belts : List (ℤ × ℤ)) {lines : List Entry} {last : Option Entry}
    (hrange : ∀ e ∈ entries lines last, e.InRange) :
    Received queue
        (accepted queue belts (queueSize - queue.length).toNat (entries lines last))
        (webifaceGetTaskList queueSize queue belts (bodyOf lines last)) ↔
      (bodyOf lines last).length < bodySize ∧
      FitWhileRead queue belts (queueSize - queue.length).toNat (entries lines last) ∧
      ((bodyOf lines last).length = 3 →
        accepted queue belts (queueSize - queue.length).toNat (entries lines last) = []) := by
  by_cases hempty : bodyOf lines last = []
  · have hnone := entries_eq_nil hempty
    rw [webifaceGetTaskList, if_neg (by omega), receive, if_pos hempty, hempty, hnone]
    refine iff_of_true ⟨_, rfl, by simp [accepted, fresh_nil], by simp [accepted, fresh_nil]⟩
      ⟨by decide, fitWhileRead_nil, fun h => absurd h (by decide)⟩
  rw [webifaceGetTaskList, if_neg (by omega), receive, if_neg hempty]
  by_cases hlength : (bodyOf lines last).length < bodySize
  · rw [if_pos hlength]
    simp only [copyBody_bodyOf hlength, taskListMatch_bodyOf hempty, hlength, true_and]
    by_cases hthree : (bodyOf lines last).length = 3
    · have hfit := fitWhileRead_of_length (hthree.trans_le (by decide)) queue belts
        (queueSize - queue.length).toNat
      simp only [hthree, ne_eq, not_true_eq_false, decide_false, Bool.false_eq_true, if_false,
        forall_const, hfit, true_and]
      constructor
      · rintro ⟨r, hr, -, hdeleted⟩
        obtain rfl := Option.some.inj hr
        exact hdeleted.symm
      · intro hnone
        exact ⟨_, rfl, by rw [hnone, List.append_nil], hnone.symm⟩
    · have hrun := @receiveLoop_bodyOf State
        (fun s => (queueSize - queue.length).toNat ≤ s.taked) _ (fun s k => s.offer belts k)
        lines last ((bodyOf lines last).length + 1) ⟨queue, [], 0⟩ [] [] (by simp) (by simp)
        (Nat.lt_succ_of_le length_entries_le)
      rw [List.nil_append, List.append_nil] at hrun
      simp only [hthree, ne_eq, not_false_eq_true, decide_true, if_true, hrun, false_imp_iff,
        and_true]
      constructor
      · rintro ⟨r, hr, -⟩
        exact ((takeEntries_eq_some_iff hrange).1 hr).1
      · intro hfit
        exact ⟨_, (takeEntries_eq_some_iff hrange).2 ⟨hfit, rfl⟩, rfl, List.nil_append _⟩
  · rw [if_neg hlength]
    refine iff_of_false ?_ fun h => hlength h.1
    rintro ⟨r, hr, -⟩
    exact absurd hr.symm (Option.some_ne_none r)

/-- A task with both numbers printed. -/
def Entry.ofNat (sid lid : ℕ) : Entry where
  sid := decimal sid
  lid := decimal lid
  sid_ne := Nat.toDigits_ne_nil
  lid_ne := Nat.toDigits_ne_nil
  sid_digits _ := isDigit_of_mem_decimal
  lid_digits _ := isDigit_of_mem_decimal

/-- Of four tasks one is in the queue and one comes twice. -/
theorem received_iff_four_tasks :
    Received [(5, 1)] [(12, 3), (7, 10)] (webifaceGetTaskList 4 [(5, 1)] [(6, 1)]
      "12@3\n5@1\n12@3\n7@10".toList) :=
  (@received_iff 4 [(5, 1)] (by decide) [(6, 1)]
    [.ofNat 12 3, .ofNat 5 1, .ofNat 12 3] (some (.ofNat 7 10)) (by decide)).2
    ⟨by decide, fitWhileRead_of_forall (by decide), fun h => absurd h (by decide)⟩

/-- A single new task is not received, and 64 digits are written behind a buffer. -/
theorem single_task_not_received :
    accepted [] [] 4 (entries [] (some (.ofNat 1 2))) = [(1, 2)] ∧
      ¬Received [] [(1, 2)] (webifaceGetTaskList 4 [] [] "1@2".toList) ∧
      webifaceGetTaskList 4 [] [] (List.replicate 63 '0' ++ "1@2\n".toList) = none := by
  decide +kernel

end WebTester.Reception
