import Mathlib.Algebra.Ring.Nat
import Mathlib.Data.List.Induction
import Mathlib.Data.List.Range
import WebTester.Transition

/-!
# Sending a command over netlink

`send_cmd` calls `sendto` until as many bytes are accepted as were offered. Behind a part that was
accepted the pointer moves on, and the length becomes that of the part. The message is the beginning
of a memory that goes on behind it; it is much shorter than an `int` can count.
-/
namespace WebTester.Librun.SendCmd
open Transition

/-- What `sendto` returns, and whether `errno` is `EAGAIN` after it. -/
structure Answer where
  r : ℤ
  again : Bool
  deriving DecidableEq, Repr

/-- The variables of the loop while `sendto` is called, with what the socket has seen: the bytes
that were offered to it, each time from where on and how many, and those that it accepted. `code` is
what `send_cmd` has returned. -/
structure Send where
  buf : ℕ
  buflen : ℤ
  offered : List (ℕ × ℤ)
  accepted : List UInt8
  code : Option ℤ
  deriving DecidableEq, Repr

/-- So many bytes of a memory. -/
def bytes (mem : ℕ → UInt8) (start count : ℕ) : List UInt8 := (List.range' start count).map mem

namespace Send

/-- The call of `sendto`. -/
def offer (s : Send) : Send := { s with offered := s.offered ++ [(s.buf, s.buflen)] }

/-- Before the first call is answered. -/
def start (n : ℕ) : Send := offer ⟨0, n, [], [], none⟩

/-- What the socket accepts. -/
def accept (mem : ℕ → UInt8) (s : Send) (r : ℤ) : Send :=
  { s with accepted := s.accepted ++ bytes mem s.buf r.toNat }

/-- The loop from an answer to the next call, or to the end of the function. -/
def iterate (s : Send) (a : Answer) : Send :=
  if a.r < s.buflen then
    if 0 < a.r then offer { s with buf := s.buf + a.r.toNat, buflen := a.r }
    else if ¬a.again then { s with code := some (-1) }
    else s.offer
  else { s with code := some 0 }

end Send

/-- What may be returned for so many bytes: a count of them, or a failure. -/
def Answer.Possible (a : Answer) (len : ℤ) : Prop := 1 ≤ a.r ∧ a.r ≤ len ∨ a.r = -1

instance (a : Answer) (len : ℤ) : Decidable (a.Possible len) := inferInstanceAs (Decidable (_ ∨ _))

def step (mem : ℕ → UInt8) (s : Send) (a : Answer) : Option Send :=
  if s.code = none ∧ a.Possible s.buflen then some ((s.accept mem a.r).iterate a) else none

/-- `send_cmd` with a message of `n` bytes, after these answers of the socket. -/
def sendCmd (mem : ℕ → UInt8) (n : ℕ) (answers : List Answer) : Option Send :=
  answers.foldlM (step mem) (.start n)

/-- Where zero is returned exactly the message was accepted, and nothing behind it is ever
offered. -/
structure Right (mem : ℕ → UInt8) (n : ℕ) (s : Send) : Prop where
  sent : s.code = some 0 → s.accepted = bytes mem 0 n
  inside : ∀ c ∈ s.offered, c.1 + c.2 ≤ n

/-- The counts among the answers. -/
def counts (answers : List Answer) : List ℕ := (answers.map (·.r.toNat)).filter (0 < ·)

/-- The count before, or the length of the message. -/
def before (n : ℕ) (counts : List ℕ) : ℕ := counts.getLast?.getD n

/-- What is left of the message after the counts so far is at least twice a smaller count than the
one before, and is an equal one. -/
def Halves (n : ℕ) (counts : List ℕ) : Prop :=
  Throughout (fun pre r => (r < before n pre → pre.sum + 2 * r ≤ n) ∧
    (r = before n pre → pre.sum + r = n)) counts

/-! ## One answer -/

variable {mem : ℕ → UInt8} {n : ℕ} {s t : Send} {a : Answer} {answers : List Answer}

lemma bytes_append (mem : ℕ → UInt8) (i j : ℕ) :
    bytes mem 0 i ++ bytes mem i j = bytes mem 0 (i + j) := by
  have hrange := @List.range'_append_1 0 i j
  rw [Nat.zero_add] at hrange
  rw [bytes, bytes, bytes, ← List.map_append, hrange]

lemma bytes_inj {i j : ℕ} : bytes mem 0 i = bytes mem 0 j ↔ i = j := by
  constructor
  · intro h
    simpa [bytes] using congrArg List.length h
  · rintro rfl
    rfl

/-- A part of what was offered is accepted, or all of it, or nothing. -/
lemma step_cases (hlen : 0 ≤ s.buflen) (h : step mem s a = some t) : s.code = none ∧
    (1 ≤ a.r ∧ a.r < s.buflen ∧ t = Send.offer { s.accept mem a.r with
        buf := s.buf + a.r.toNat, buflen := a.r } ∨
      1 ≤ a.r ∧ a.r = s.buflen ∧ t = { s.accept mem a.r with code := some 0 } ∨
      a.r = -1 ∧ (t = s.offer ∨ t = { s with code := some (-1) })) := by
  obtain ⟨⟨hcode, hpossible⟩, ht⟩ := Option.ite_none_right_eq_some.1 h
  have heq := Option.some.inj ht
  refine ⟨hcode, ?_⟩
  unfold Send.iterate at heq
  rcases hpossible with ⟨hpos, hle⟩ | hfail
  · by_cases hlt : a.r < s.buflen
    · rw [if_pos (show a.r < (s.accept mem a.r).buflen from hlt), if_pos (by omega)] at heq
      exact .inl ⟨hpos, hlt, heq.symm⟩
    · rw [if_neg (show ¬a.r < (s.accept mem a.r).buflen from hlt)] at heq
      exact .inr (.inl ⟨hpos, by omega, heq.symm⟩)
  · have hnone : s.accept mem a.r = s := by
      rw [hfail]
      simp [Send.accept, bytes]
    rw [hnone, if_pos (by omega), if_neg (by omega)] at heq
    refine .inr (.inr ⟨hfail, ?_⟩)
    split at heq
    · exact .inr heq.symm
    · exact .inl heq.symm

lemma counts_concat_count (h : 1 ≤ a.r) :
    counts (answers ++ [a]) = counts answers ++ [a.r.toNat] := by
  have hpos : 0 < a.r.toNat := by omega
  simp [counts, hpos]

lemma counts_concat_failure (h : a.r = -1) : counts (answers ++ [a]) = counts answers := by
  simp [counts, h]

lemma before_concat (n : ℕ) (cs : List ℕ) (r : ℕ) : before n (cs ++ [r]) = r := by
  simp [before]

lemma Right.iff_inside (h : s.code ≠ some 0) : Right mem n s ↔ ∀ c ∈ s.offered, c.1 + c.2 ≤ n := by
  constructor
  · intro hr
    exact hr.inside
  · intro hinside
    exact ⟨fun h0 => absurd h0 h, hinside⟩

/-- What is true after answers: the accepted bytes and the next call are told by the counts, and all
is right so far if and only if they halve what is left. -/
structure Follows (mem : ℕ → UInt8) (n : ℕ) (answers : List Answer) (s : Send) : Prop where
  accepted : s.accepted = bytes mem 0 (counts answers).sum
  next : s.code = none → s.buf = (counts answers).sum ∧ s.buflen = before n (counts answers) ∧
    (s.buf, s.buflen) ∈ s.offered
  right_iff : Right mem n s ↔ Halves n (counts answers)

lemma follows_start (mem : ℕ → UInt8) (n : ℕ) : Follows mem n [] (.start n) where
  accepted := rfl
  next _ := ⟨rfl, rfl, List.mem_singleton_self _⟩
  right_iff := by
    rw [Right.iff_inside (by simp [Send.start, Send.offer])]
    refine iff_of_true (fun c hc => ?_) .nil
    obtain rfl := List.mem_singleton.1 hc
    simp

namespace Follows

/-- As long as nothing is returned only the calls count. -/
lemma inside_iff (h : Follows mem n answers s) (hcode : s.code = none) :
    (∀ c ∈ s.offered, c.1 + c.2 ≤ n) ↔ Halves n (counts answers) := by
  rw [← h.right_iff, Right.iff_inside (by simp [hcode])]

/-- A part is accepted. -/
lemma part (h : Follows mem n answers s) (hcode : s.code = none) (hpos : 1 ≤ a.r)
    (hlt : a.r < s.buflen) : Follows mem n (answers ++ [a]) (Send.offer { s.accept mem a.r with
      buf := s.buf + a.r.toNat, buflen := a.r }) := by
  obtain ⟨hbuf, hbuflen, -⟩ := h.next hcode
  obtain ⟨r, hr⟩ := Int.eq_ofNat_of_zero_le (show 0 ≤ a.r by omega)
  have hcounts : counts (answers ++ [a]) = counts answers ++ [a.r.toNat] :=
    counts_concat_count hpos
  rw [hr, Int.toNat_natCast] at hcounts
  rw [hr, Int.toNat_natCast]
  have hless : r < before n (counts answers) := by omega
  constructor
  · rw [hcounts, List.sum_append, List.sum_singleton, ← bytes_append]
    show s.accepted ++ bytes mem s.buf _ = _
    rw [h.accepted, hbuf, Int.toNat_natCast]
  · intro _
    rw [hcounts, List.sum_append, List.sum_singleton, before_concat]
    refine ⟨?_, rfl, List.mem_append_right _ (List.mem_singleton_self _)⟩
    show s.buf + r = _
    rw [hbuf]
  · have hold := h.inside_iff hcode
    have hnew : s.buf + r + (r : ℤ) ≤ n ↔ (counts answers).sum + 2 * r ≤ n := by omega
    rw [hcounts, Halves, Throughout.concat_iff, ← Halves, ← hold,
      Right.iff_inside (by simp [Send.offer, Send.accept, hcode])]
    show (∀ c ∈ s.offered ++ [(s.buf + r, (r : ℤ))], c.1 + c.2 ≤ (n : ℤ)) ↔ _
    rw [List.forall_mem_append, List.forall_mem_singleton]
    refine and_congr_right fun _ => ?_
    push_cast
    rw [hnew]
    constructor
    · intro hhalf
      exact ⟨fun _ => hhalf, fun heq => absurd heq hless.ne⟩
    · intro hhalf
      exact hhalf.1 hless

/-- All that was offered is accepted. -/
lemma whole (h : Follows mem n answers s) (hcode : s.code = none) (hpos : 1 ≤ a.r)
    (heq : a.r = s.buflen) :
    Follows mem n (answers ++ [a]) { s.accept mem a.r with code := some 0 } := by
  obtain ⟨hbuf, hbuflen, -⟩ := h.next hcode
  obtain ⟨r, hr⟩ := Int.eq_ofNat_of_zero_le (show 0 ≤ a.r by omega)
  have hcounts : counts (answers ++ [a]) = counts answers ++ [a.r.toNat] :=
    counts_concat_count hpos
  rw [hr, Int.toNat_natCast] at hcounts
  rw [hr]
  have hall : r = before n (counts answers) := by omega
  have haccepted : s.accepted ++ bytes mem s.buf (r : ℤ).toNat =
      bytes mem 0 ((counts answers).sum + r) := by
    rw [h.accepted, hbuf, Int.toNat_natCast, bytes_append]
  constructor
  · rw [hcounts, List.sum_append, List.sum_singleton]
    exact haccepted
  · intro hnone
    cases hnone
  · have hold := h.inside_iff hcode
    rw [hcounts, Halves, Throughout.concat_iff, ← Halves, ← hold]
    constructor
    · intro hright
      have hsum := hright.sent rfl
      refine ⟨hright.inside, fun hlt => absurd hall hlt.ne, fun _ => ?_⟩
      exact bytes_inj.1 (haccepted.symm.trans hsum)
    · intro hright
      refine ⟨fun _ => ?_, hright.1⟩
      show s.accepted ++ bytes mem s.buf (r : ℤ).toNat = _
      rw [haccepted, hright.2.2 hall]

/-- Nothing is accepted, and the same is offered again or the function ends. -/
lemma failure (h : Follows mem n answers s) (hcode : s.code = none) (hfail : a.r = -1)
    (ht : t = s.offer ∨ t = { s with code := some (-1) }) : Follows mem n (answers ++ [a]) t := by
  obtain ⟨hbuf, hbuflen, hmem⟩ := h.next hcode
  have hcounts : counts (answers ++ [a]) = counts answers := counts_concat_failure hfail
  have hold := h.inside_iff hcode
  rcases ht with rfl | rfl
  · constructor
    · rw [hcounts]
      exact h.accepted
    · intro _
      rw [hcounts]
      exact ⟨hbuf, hbuflen, List.mem_append_left _ hmem⟩
    · rw [hcounts, ← hold, Right.iff_inside (by simp [Send.offer, hcode])]
      show (∀ c ∈ s.offered ++ [(s.buf, s.buflen)], c.1 + c.2 ≤ (n : ℤ)) ↔ _
      rw [List.forall_mem_append, List.forall_mem_singleton]
      exact and_iff_left_of_imp fun hinside => hinside _ hmem
  · constructor
    · rw [hcounts]
      exact h.accepted
    · intro hnone
      cases hnone
    · rw [hcounts, ← hold, Right.iff_inside (by simp)]

lemma step (h : Follows mem n answers s) (hstep : step mem s a = some t) :
    Follows mem n (answers ++ [a]) t := by
  have hcode : s.code = none := (Option.ite_none_right_eq_some.1 hstep).1.1
  have hlen : 0 ≤ s.buflen := by
    rw [(h.next hcode).2.1]
    exact Int.natCast_nonneg _
  obtain ⟨-, ⟨hpos, hlt, rfl⟩ | ⟨hpos, heq, rfl⟩ | ⟨hfail, ht⟩⟩ := step_cases hlen hstep
  · exact h.part hcode hpos hlt
  · exact h.whole hcode hpos heq
  · exact h.failure hcode hfail ht

end Follows

/-! ## Runs -/

lemma sendCmd_follows (hr : sendCmd mem n answers = some s) : Follows mem n answers s := by
  induction answers using List.reverseRecOn generalizing s with
  | nil =>
    cases hr
    exact follows_start mem n
  | append_singleton answers a ih =>
    rw [sendCmd, foldlM_concat, Option.bind_eq_some_iff] at hr
    obtain ⟨t, ht, hstep⟩ := hr
    exact (ih ht).step hstep

/-- The message is sent as it is, and nothing behind it is offered, if and only if each count that
is smaller than the one before it is at most half of what is left of the message, and one that is
equal is all that is left. -/
theorem sendCmd_right_iff {mem : ℕ → UInt8} {n : ℕ} {answers : List Answer} {s : Send}
    (hr : sendCmd mem n answers = some s) : Right mem n s ↔ Halves n (counts answers) :=
  (sendCmd_follows hr).right_iff

/-- Half of a message, and then the other half. -/
theorem sendCmd_right_halves :
    ∃ s, sendCmd (fun _ => 0) 32 [⟨16, false⟩, ⟨-1, true⟩, ⟨16, false⟩] = some s ∧
      s.code = some 0 ∧ Right (fun _ => 0) 32 s := by
  have hr : ∃ s, sendCmd (fun _ => 0) 32 [⟨16, false⟩, ⟨-1, true⟩, ⟨16, false⟩] = some s ∧
      s.code = some 0 := ⟨_, rfl, rfl⟩
  obtain ⟨s, hs, hcode⟩ := hr
  have hhalves : Halves 32 [16, 16] :=
    .concat (.concat .nil (by decide)) (by decide)
  exact ⟨s, hs, hcode, (sendCmd_right_iff hs).2 hhalves⟩

/-- Eight bytes of 32 and again eight are taken for all of them; behind 31 bytes of 32 there are
31 offered. -/
theorem sendCmd_wrong :
    (∃ s, sendCmd (fun _ => 0) 32 [⟨8, false⟩, ⟨8, false⟩] = some s ∧ s.code = some 0 ∧
      s.accepted.length = 16 ∧ ¬Right (fun _ => 0) 32 s) ∧
    ∃ s, sendCmd (fun _ => 0) 32 [⟨31, false⟩] = some s ∧ (31, 31) ∈ s.offered ∧
      ¬Right (fun _ => 0) 32 s := by
  refine ⟨⟨_, rfl, rfl, rfl, fun h => ?_⟩, _, rfl, by decide, fun h => ?_⟩
  · have hsent := congrArg List.length (h.sent rfl)
    cases hsent
  · have hinside := h.inside (31, 31) (by decide)
    revert hinside
    decide

end WebTester.Librun.SendCmd
