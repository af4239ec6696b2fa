import WebTester.Attributes

/-!
# Accounting messages

The thread that listens to the kernel walks over the attributes of a message and hands every
`taskstats` on to the pool. Inside an aggregate it moves its pointer by the length so far, not
by the length of the last attribute, so that the pointer is right for the first two nested
attributes only. Places count from the payload of the message; the memory behind the message is
whatever was in the buffer, and a walk that leaves the buffer has no result. The number read from
an identifier is not used by the program and left out.
-/
namespace WebTester.Librun.Netlink
open Attributes

/-! ## Types of attributes -/

/-- `TASKSTATS_TYPE_PID`. -/
def typePid : ℕ := 1

/-- `TASKSTATS_TYPE_STATS`. -/
def typeStats : ℕ := 3

/-- `TASKSTATS_TYPE_AGGR_PID`. -/
def typeAggrPid : ℕ := 4

/-- `TASKSTATS_TYPE_AGGR_TGID`. -/
def typeAggrTgid : ℕ := 5

/-- `TASKSTATS_TYPE_NULL`, which the kernel uses to align what follows. -/
def typeNull : ℕ := 6

def isAggr (type : ℕ) : Bool := type == typeAggrTgid || type == typeAggrPid

/-! ## The walk -/

/-- The places of the nested attributes that were visited, and the pointers that were passed to
`run_hvpool_put`. -/
structure Walk where
  visits : List ℕ
  puts : List ℕ
  deriving DecidableEq

namespace Walk

def empty : Walk := ⟨[], []⟩

def append (v w : Walk) : Walk := ⟨v.visits ++ w.visits, v.puts ++ w.puts⟩

/-- The `switch` over the type of a nested attribute. -/
def visit (na type : ℕ) : Walk := ⟨[na], if type = typeStats then [na + hdrlen] else []⟩

end Walk

/-- The inner loop of `listening_thread_acct`, with a bound on the iterations. -/
def nestedWalk (mem : List UInt8) (aggrLen : ℕ) : ℕ → ℕ → ℕ → Option Walk
  | 0, _, _ => none
  | fuel + 1, len2, na =>
    if len2 < aggrLen then do
      let h ← header mem na
      let len2 := len2 + align h.len
      let w ← nestedWalk mem aggrLen fuel len2 (na + len2)
      return (Walk.visit na h.type).append w
    else some .empty

/-- The outer loop of `listening_thread_acct` for a message of `repLen` bytes. -/
def listeningThreadAcct (mem : List UInt8) (repLen : ℕ) : ℕ → ℕ → ℕ → Option Walk
  | 0, _, _ => none
  | fuel + 1, len, na =>
    if len < repLen then do
      let h ← header mem na
      let len := len + align h.len
      let v ← if isAggr h.type then nestedWalk mem (h.len - hdrlen) fuel 0 (na + hdrlen)
        else some .empty
      let w ← listeningThreadAcct mem repLen fuel len len
      return v.append w
    else some .empty

/-! ## Messages -/

/-- An attribute of a message; the payload of an aggregate is made of nested attributes. -/
structure Top where
  attr : Attr
  nested : List Attr
  content : if isAggr attr.type then attr.payload = bytes nested else nested = []

def replyBytes (reply : List Top) : List UInt8 := bytes (reply.map Top.attr)

/-- All the attributes nested in one, where they are. -/
def nestedPlaces (o : ℕ) (t : Top) : List (ℕ × Attr) := places (o + hdrlen) t.nested

def replyPlaces : ℕ → List Top → List (ℕ × Attr)
  | _, [] => []
  | o, t :: ts => nestedPlaces o t ++ replyPlaces (o + t.attr.size) ts

/-- Every attribute is visited at its place, and the payloads of the statistics are passed on. -/
def wanted (as : List (ℕ × Attr)) : Walk where
  visits := as.map Prod.fst
  puts := (as.filter fun p => p.2.type == typeStats).map fun p => p.1 + hdrlen

/-- The message is handled as it should be; `rest` is what the buffer holds behind it. -/
def Handled (reply : List Top) (rest : List UInt8) : Prop :=
  ∃ fuel, listeningThreadAcct (replyBytes reply ++ rest) (replyBytes reply).length fuel 0 0 =
    some (wanted (replyPlaces 0 reply))

lemma wanted_append (as bs : List (ℕ × Attr)) :
    wanted (as ++ bs) = (wanted as).append (wanted bs) := by
  simp [wanted, Walk.append]

lemma wanted_nil : wanted [] = .empty := rfl

lemma wanted_cons (o : ℕ) (a : Attr) (as : List (ℕ × Attr)) :
    wanted ((o, a) :: as) = (Walk.visit o a.type).append (wanted as) := by
  unfold wanted Walk.visit Walk.append
  by_cases h : a.type = typeStats
  · simp [h]
  · simp [h]

@[simp] lemma Walk.append_empty (w : Walk) : w.append .empty = w := by
  simp [append, empty]

/-! ## The bytes of a message -/

lemma length_append_bytes {pre : List UInt8} {o : ℕ} (a : Attr) (hpre : pre.length = o) :
    (pre ++ a.bytes).length = o + a.size := by
  rw [List.length_append, hpre, a.length_bytes]

lemma length_replyBytes_cons (t : Top) (ts : List Top) :
    (replyBytes (t :: ts)).length = t.attr.size + (replyBytes ts).length := by
  simp [replyBytes, t.attr.length_bytes]

/-- The memory around the first attribute, and around the others. -/
lemma replyBytes_cons {mem pre post : List UInt8} {t : Top} {ts : List Top}
    (hmem : mem = pre ++ replyBytes (t :: ts) ++ post) :
    mem = pre ++ t.attr.bytes ++ (replyBytes ts ++ post) ∧
      mem = (pre ++ t.attr.bytes) ++ replyBytes ts ++ post := by
  constructor
  · simp [hmem, replyBytes]
  · simp [hmem, replyBytes]

/-- The places passed on hold the payloads of the statistics. -/
theorem payload_of_mem_replyPlaces {o p : ℕ} {a : Attr} {reply : List Top} {pre post : List UInt8}
    (hpre : pre.length = o) (h : (p, a) ∈ replyPlaces o reply) :
    ((pre ++ replyBytes reply ++ post).drop (p + hdrlen)).take a.payload.length = a.payload := by
  induction reply generalizing o pre with
  | nil => simp [replyPlaces] at h
  | cons t ts ih =>
    rw [replyPlaces, List.mem_append] at h
    rcases h with h | h
    · have hcontent := t.content
      split at hcontent
      · have hbytes : pre ++ replyBytes (t :: ts) ++ post =
            (pre ++ (Attr.word t.attr.len ++ Attr.word t.attr.type)) ++ bytes t.nested ++
              (t.attr.pad ++ replyBytes ts ++ post) := by
          simp [replyBytes, Attr.bytes, hcontent]
        rw [hbytes]
        exact payload_of_mem_places (by simp [Attr.word, hdrlen, hpre]) h
      · simp [nestedPlaces, hcontent, places] at h
    · rw [(replyBytes_cons rfl).2]
      exact ih (length_append_bytes t.attr hpre) h

/-! ## Nested attributes -/

variable {mem pre post : List UInt8} {o fuel : ℕ} {a b c : Attr} {as : List Attr} {t : Top}
  {ts : List Top} {w : Walk}

/-- One attribute is visited, and the pointer is moved by the length so far. -/
lemma nestedWalk_succ {len2 aggrLen : ℕ} (h : header mem o = some ⟨a.len, a.type⟩)
    (hlt : len2 < aggrLen) :
    nestedWalk mem aggrLen (fuel + 1) len2 o =
      (nestedWalk mem aggrLen fuel (len2 + a.size) (o + (len2 + a.size))).map
        (Walk.visit o a.type).append := by
  rw [nestedWalk, if_pos hlt, h]
  simp only [Option.bind_eq_bind, Option.bind_some, Option.map_eq_bind]
  rfl

lemma nestedWalk_end {len2 aggrLen : ℕ} (h : aggrLen ≤ len2) :
    nestedWalk mem aggrLen (fuel + 1) len2 o = some .empty :=
  if_neg (Nat.not_lt.2 h)

lemma header_cons (hmem : mem = pre ++ bytes (a :: as) ++ post) (hpre : pre.length = o) :
    header mem o = some ⟨a.len, a.type⟩ := by
  subst hpre
  have hbytes : mem = pre ++ a.bytes ++ (bytes as ++ post) := by
    simp [hmem]
  rw [hbytes, a.header_bytes]

lemma header_cons_cons (hmem : mem = pre ++ bytes (a :: b :: as) ++ post) (hpre : pre.length = o) :
    header mem (o + a.size) = some ⟨b.len, b.type⟩ := by
  have hbytes : mem = (pre ++ a.bytes) ++ bytes (b :: as) ++ post := by
    simp [hmem]
  exact header_cons hbytes (length_append_bytes a hpre)

/-- Two attributes are visited at their places. -/
lemma nestedWalk_of_length_le (hmem : mem = pre ++ bytes as ++ post) (hpre : pre.length = o)
    (h : as.length ≤ 2) :
    nestedWalk mem (bytes as).length (fuel + 3) 0 o = some (wanted (places o as)) := by
  match as with
  | [] => rfl
  | [a] =>
    have hsize := a.hdrlen_le_size
    unfold hdrlen at hsize
    have hlength : (bytes [a]).length = a.size := by
      simp [a.length_bytes]
    rw [hlength, nestedWalk_succ (header_cons hmem hpre) (by omega), nestedWalk_end (by omega)]
    simp [places, wanted_cons, wanted_nil]
  | [a, b] =>
    have hsize := a.hdrlen_le_size
    have hsize' := b.hdrlen_le_size
    unfold hdrlen at hsize hsize'
    have hlength : (bytes [a, b]).length = a.size + b.size := by
      simp [a.length_bytes, b.length_bytes]
    rw [hlength, nestedWalk_succ (header_cons hmem hpre) (by omega), Nat.zero_add,
      nestedWalk_succ (header_cons_cons hmem hpre) (by omega), nestedWalk_end (Nat.le_refl _)]
    simp [places, wanted_cons, wanted_nil]
  | a :: b :: c :: more =>
    simp only [List.length_cons] at h
    omega

/-- A bound that is not reached may be raised. -/
lemma nestedWalk_mono {aggrLen len2 : ℕ} (h : nestedWalk mem aggrLen fuel len2 o = some w)
    (k : ℕ) : nestedWalk mem aggrLen (fuel + k) len2 o = some w := by
  induction fuel generalizing len2 o w with
  | zero => cases h
  | succ fuel ih =>
    rw [Nat.add_right_comm]
    unfold nestedWalk at h ⊢
    split at h
    · rename_i hlt
      rw [if_pos hlt]
      simp only [Option.bind_eq_bind, Option.bind_eq_some_iff] at h ⊢
      obtain ⟨hd, hhd, v, hv, hw⟩ := h
      exact ⟨hd, hhd, v, ih hv, hw⟩
    · rename_i hlt
      rw [if_neg hlt]
      exact h

/-- The third one is looked for behind its place. -/
lemma nestedWalk_visits (hmem : mem = pre ++ bytes (a :: b :: c :: as) ++ post)
    (hpre : pre.length = o)
    (h : nestedWalk mem (bytes (a :: b :: c :: as)).length fuel 0 o = some w) :
    ∃ vs, w.visits = o :: (o + a.size) :: (o + a.size + (a.size + b.size)) :: vs := by
  have hsize := a.hdrlen_le_size
  have hsize' := b.hdrlen_le_size
  have hsize'' := c.hdrlen_le_size
  unfold hdrlen at hsize hsize' hsize''
  have hlength : a.size + b.size + c.size ≤ (bytes (a :: b :: c :: as)).length := by
    simp only [bytes_cons, List.length_append, Attr.length_bytes]
    omega
  match fuel with
  | 0 => cases h
  | 1 =>
    rw [nestedWalk_succ (header_cons hmem hpre) (by omega)] at h
    cases h
  | 2 =>
    rw [nestedWalk_succ (header_cons hmem hpre) (by omega), Nat.zero_add,
      nestedWalk_succ (header_cons_cons hmem hpre) (by omega)] at h
    cases h
  | fuel + 3 =>
    rw [nestedWalk_succ (header_cons hmem hpre) (by omega), Nat.zero_add,
      nestedWalk_succ (header_cons_cons hmem hpre) (by omega), nestedWalk, if_pos (by omega)] at h
    simp only [Option.map_eq_some_iff, Option.bind_eq_bind, Option.bind_eq_some_iff,
      Option.pure_def, Option.some.injEq] at h
    obtain ⟨w₁, ⟨w₂, ⟨h₃, hh₃, w₃, hw₃, rfl⟩, rfl⟩, rfl⟩ := h
    exact ⟨w₃.visits, rfl⟩

/-! ## The message -/

/-- What an attribute of the message contributes. -/
def inner (mem : List UInt8) (o fuel : ℕ) (t : Top) : Option Walk :=
  if isAggr t.attr.type then nestedWalk mem (bytes t.nested).length fuel 0 (o + hdrlen)
  else some .empty

lemma listeningThreadAcct_cons {repLen : ℕ} (hmem : mem = pre ++ t.attr.bytes ++ post)
    (hpre : pre.length = o) (hlt : o < repLen) :
    listeningThreadAcct mem repLen (fuel + 1) o o = (inner mem o fuel t).bind fun v =>
      (listeningThreadAcct mem repLen fuel (o + t.attr.size) (o + t.attr.size)).map v.append := by
  subst hpre
  have hheader : header mem pre.length = some ⟨t.attr.len, t.attr.type⟩ := by
    rw [hmem, t.attr.header_bytes]
  have hcontent := t.content
  rw [listeningThreadAcct, if_pos hlt, hheader, inner]
  by_cases h : isAggr t.attr.type = true
  · rw [if_pos h] at hcontent
    have hlen : t.attr.len - hdrlen = (bytes t.nested).length := by
      rw [Attr.len, hcontent]
      omega
    simp only [Option.bind_eq_bind, Option.bind_some, if_pos h, hlen, Option.map_eq_bind]
    rfl
  · simp only [Option.bind_eq_bind, Option.bind_some, if_neg h, Option.map_eq_bind]
    rfl

lemma inner_mono {v : Walk} (h : inner mem o fuel t = some v) (k : ℕ) :
    inner mem o (fuel + k) t = some v := by
  unfold inner at h ⊢
  split at h
  · rename_i haggr
    rw [if_pos haggr]
    exact nestedWalk_mono h k
  · rename_i haggr
    rw [if_neg haggr]
    exact h

lemma listeningThreadAcct_end {repLen : ℕ} (h : repLen ≤ o) :
    listeningThreadAcct mem repLen (fuel + 1) o o = some .empty :=
  if_neg (Nat.not_lt.2 h)

/-- The memory of an aggregate, seen from its payload. -/
lemma mem_of_isAggr (hmem : mem = pre ++ t.attr.bytes ++ post) (h : isAggr t.attr.type = true) :
    mem = (pre ++ (Attr.word t.attr.len ++ Attr.word t.attr.type)) ++ bytes t.nested ++
      (t.attr.pad ++ post) := by
  have hcontent := t.content
  rw [if_pos h] at hcontent
  rw [hmem, Attr.bytes, hcontent]
  simp

lemma length_header (hpre : pre.length = o) :
    (pre ++ (Attr.word t.attr.len ++ Attr.word t.attr.type)).length = o + hdrlen := by
  simp [Attr.word, hdrlen, hpre]

lemma inner_of_length_le (hmem : mem = pre ++ t.attr.bytes ++ post) (hpre : pre.length = o)
    (h : t.nested.length ≤ 2) :
    inner mem o (fuel + 3) t = some (wanted (nestedPlaces o t)) := by
  unfold inner
  split
  · rename_i haggr
    exact nestedWalk_of_length_le (mem_of_isAggr hmem haggr) (length_header hpre) h
  · rename_i haggr
    have hcontent := t.content
    rw [if_neg haggr] at hcontent
    rw [nestedPlaces, hcontent]
    rfl

/-- With more than two nested attributes the places that are visited are wrong. -/
lemma length_le_of_inner {v : Walk} {us us' : List ℕ} (hmem : mem = pre ++ t.attr.bytes ++ post)
    (hpre : pre.length = o) (hv : inner mem o fuel t = some v)
    (h : v.visits ++ us = (wanted (nestedPlaces o t)).visits ++ us') : t.nested.length ≤ 2 := by
  by_contra hlength
  obtain ⟨a, b, c, as, hnested⟩ : ∃ a b c as, t.nested = a :: b :: c :: as := by
    match hn : t.nested with
    | [] => simp [hn] at hlength
    | [a] => simp [hn] at hlength
    | [a, b] => simp [hn] at hlength
    | a :: b :: c :: as => exact ⟨a, b, c, as, rfl⟩
  have haggr : isAggr t.attr.type = true := by
    by_contra hplain
    have hcontent := t.content
    rw [if_neg hplain] at hcontent
    rw [hcontent] at hnested
    cases hnested
  have hm := mem_of_isAggr hmem haggr
  rw [inner, if_pos haggr] at hv
  rw [hnested] at hm hv
  obtain ⟨vs, hvisits⟩ := nestedWalk_visits hm (length_header hpre) hv
  rw [hvisits, nestedPlaces, hnested] at h
  simp only [places, wanted, List.map_cons, List.cons_append, List.cons.injEq] at h
  have hsize := a.hdrlen_le_size
  unfold hdrlen at hsize
  omega

lemma listeningThreadAcct_of_length_le (hmem : mem = pre ++ replyBytes ts ++ post)
    (hpre : pre.length = o) (h : ∀ t ∈ ts, t.nested.length ≤ 2) :
    listeningThreadAcct mem (o + (replyBytes ts).length) (ts.length + 3) o o =
      some (wanted (replyPlaces o ts)) := by
  induction ts generalizing o pre with
  | nil => exact listeningThreadAcct_end (Nat.le_refl _)
  | cons t ts ih =>
    have hsize := t.attr.hdrlen_le_size
    unfold hdrlen at hsize
    have hlength := length_replyBytes_cons t ts
    obtain ⟨hbytes, hrest⟩ := replyBytes_cons hmem
    have hplace := length_append_bytes t.attr hpre
    have htail := ih hrest hplace fun u hu => h u (List.mem_cons_of_mem _ hu)
    have hlt : o < o + (replyBytes (t :: ts)).length := by omega
    rw [List.length_cons, Nat.add_right_comm, listeningThreadAcct_cons hbytes hpre hlt,
      inner_of_length_le hbytes hpre (h t List.mem_cons_self), Option.bind_some, hlength,
      ← Nat.add_assoc, htail, replyPlaces, wanted_append]
    rfl

lemma length_le_of_listeningThreadAcct (hmem : mem = pre ++ replyBytes ts ++ post)
    (hpre : pre.length = o)
    (hw : listeningThreadAcct mem (o + (replyBytes ts).length) fuel o o = some w)
    (h : w.visits = (wanted (replyPlaces o ts)).visits) : ∀ t ∈ ts, t.nested.length ≤ 2 := by
  induction ts generalizing o pre fuel w with
  | nil => simp
  | cons t ts ih =>
    have hsize := t.attr.hdrlen_le_size
    unfold hdrlen at hsize
    have hlength := length_replyBytes_cons t ts
    obtain ⟨hbytes, hrest⟩ := replyBytes_cons hmem
    have hplace := length_append_bytes t.attr hpre
    have hlt : o < o + (replyBytes (t :: ts)).length := by omega
    cases fuel with
    | zero => cases hw
    | succ fuel =>
      rw [listeningThreadAcct_cons hbytes hpre hlt] at hw
      obtain ⟨v, hv, hw⟩ := Option.bind_eq_some_iff.1 hw
      obtain ⟨u, hu, rfl⟩ := Option.map_eq_some_iff.1 hw
      rw [replyPlaces, wanted_append] at h
      have htwo := length_le_of_inner hbytes hpre hv h
      have hinner : wanted (nestedPlaces o t) = v := by
        have hmore := inner_mono hv 3
        rw [inner_of_length_le hbytes hpre htwo] at hmore
        exact Option.some.inj hmore
      rw [hinner] at h
      have hvisits : u.visits = (wanted (replyPlaces (o + t.attr.size) ts)).visits :=
        List.append_cancel_left h
      rw [hlength, ← Nat.add_assoc] at hu
      intro s hs
      rcases List.mem_cons.1 hs with rfl | hs
      · exact htwo
      · exact ih hrest hplace hu hvisits s hs

/-- A message is handled as it should be exactly when no aggregate has more than two nested
attributes. -/
theorem handled_iff (reply : List Top) (rest : List UInt8) :
    Handled reply rest ↔ ∀ t ∈ reply, t.nested.length ≤ 2 := by
  have hmem : replyBytes reply ++ rest = [] ++ replyBytes reply ++ rest := rfl
  constructor
  · rintro ⟨fuel, h⟩
    rw [← Nat.zero_add (replyBytes reply).length] at h
    exact length_le_of_listeningThreadAcct hmem rfl h rfl
  · intro h
    have hwalk := listeningThreadAcct_of_length_le (o := 0) hmem rfl h
    rw [Nat.zero_add] at hwalk
    exact ⟨_, hwalk⟩

/-- The identifier of a process, an attribute that aligns, and statistics. -/
def alignedReply : List Top :=
  [⟨⟨typeAggrPid, [8, 0, 1, 0, 9, 0, 0, 0, 4, 0, 6, 0, 12, 0, 3, 0, 1, 2, 3, 4, 12, 0, 9, 0], [],
      by decide, by decide, by decide⟩,
    [⟨typePid, [9, 0, 0, 0], [], by decide, by decide, by decide⟩,
      ⟨typeNull, [], [], by decide, by decide, by decide⟩,
      ⟨typeStats, [1, 2, 3, 4, 12, 0, 9, 0], [], by decide, by decide, by decide⟩],
    by decide⟩]

/-- The statistics are at 16 and their payload at 20; the walk looks for them at 24 and passes
nothing on. -/
theorem third_attribute_missed :
    wanted (replyPlaces 0 alignedReply) = ⟨[4, 12, 16], [20]⟩ ∧
      listeningThreadAcct (replyBytes alignedReply) (replyBytes alignedReply).length 5 0 0 =
        some ⟨[4, 12, 24], []⟩ ∧ ∀ rest, ¬ Handled alignedReply rest := by
  refine ⟨by decide, by decide, fun rest => ?_⟩
  rintro ⟨fuel, h⟩
  have hmem : replyBytes alignedReply ++ rest = [] ++ replyBytes alignedReply ++ rest := rfl
  rw [← Nat.zero_add (replyBytes alignedReply).length] at h
  have hlength := length_le_of_listeningThreadAcct hmem rfl h rfl
  exact absurd (hlength _ List.mem_cons_self) (by decide)

end WebTester.Librun.Netlink
