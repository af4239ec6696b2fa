import WebTester.CString
import Mathlib.Data.List.Infix

/-!
# The supervisor's limit on restarts

`executable` keeps the times of the starts that it granted. It refuses when there are
`MAX_TRIES` of them, before it looks at their age; otherwise it takes out old ones and adds
the new one. The loop does not look at the entry after one that it took out. An entry is kept
here as the time of its call; the array has it as an `int`, and the difference of two of them
is computed in `int`, where it wraps.
-/
namespace WebTester.Supervisor
open CString

/-- `MAX_TRIES`. -/
def maxTries : ℕ := 10

/-- `TIME_DELTA`. -/
def timeDelta : ℤ := 60

/-- `now - stack[i] > TIME_DELTA`. -/
def Expired (now t : ℤ) : Prop := timeDelta < toInt (toInt now - toInt t)

instance (now t : ℤ) : Decidable (Expired now t) := inferInstanceAs (Decidable (_ < _))

/-- One iteration of the loop over the entries. -/
def dropExpired (now : ℤ) (stack : List ℤ) (i : ℕ) : List ℤ :=
  match stack[i]? with
  | some t => if Expired now t then stack.eraseIdx i else stack
  | none => stack

/-- The loop over the entries. The index goes up at each iteration, also where an entry was
taken out. -/
def purge (now : ℤ) (stack : List ℤ) : List ℤ :=
  (List.range stack.length).foldl (dropExpired now) stack

/-- `executable`: its result and the array after it. -/
def executable (now : ℤ) (stack : List ℤ) : Bool × List ℤ :=
  if maxTries ≤ stack.length then (false, stack)
  else (true, purge now stack ++ [now])

/-- The array with the starts that were granted. -/
structure History where
  stack : List ℤ
  granted : List ℤ
  deriving DecidableEq, Repr

namespace History

def start : History := ⟨[], []⟩

/-- A call at a time. -/
def call (h : History) (now : ℤ) : History :=
  let result := executable now h.stack
  ⟨result.2, if result.1 then h.granted ++ [now] else h.granted⟩

/-- What is left after calls at the given times. -/
def after (times : List ℤ) : History := times.foldl call start

/-- The starts that were granted within the last `TIME_DELTA` seconds. -/
def recent (h : History) (now : ℤ) : List ℤ := h.granted.filter (now - · ≤ timeDelta)

/-- A call refuses if and only if there were `MAX_TRIES` starts lately, and what it grants it
records. -/
def Right (h : History) (now : ℤ) : Prop :=
  ((executable now h.stack).1 = false ↔ maxTries ≤ (h.recent now).length) ∧
    ((executable now h.stack).1 = true → now ∈ (executable now h.stack).2)

end History

/-! ## The loop -/

variable {now t : ℤ} {stack : List ℤ} {p : ℤ → Bool}

/-- Only an entry that is too old is taken for one, also where the difference wraps. -/
lemma Expired.lt (h : Expired now t) (hle : t ≤ now) : timeDelta < now - t := by
  have heq : toInt (toInt now - toInt t) = toInt (now - t) := by
    unfold toInt
    rw [Int.bmod_sub_bmod, Int.sub_bmod_bmod]
  have hwrap := toInt_le (Int.sub_nonneg.2 hle)
  rw [Expired, heq] at h
  exact h.trans_le hwrap

/-- What holds of no expired entry holds of the same entries after an iteration. -/
lemma filter_dropExpired (hp : ∀ t ∈ stack, Expired now t → p t = false) (i : ℕ) :
    (dropExpired now stack i).filter p = stack.filter p := by
  unfold dropExpired
  split
  · next t ht =>
    split
    · next hexp =>
      obtain ⟨hi, rfl⟩ := List.getElem?_eq_some_iff.1 ht
      have hsplit : stack = stack.take i ++ stack[i] :: stack.drop (i + 1) := by
        rw [List.getElem_cons_drop, List.take_append_drop]
      have hfalse := hp _ (List.getElem_mem hi) hexp
      conv_rhs => rw [hsplit]
      rw [List.eraseIdx_eq_take_drop_succ, List.filter_append, List.filter_append,
        List.filter_cons_of_neg (by simp [hfalse])]
    · rfl
  · rfl

lemma dropExpired_sublist (now : ℤ) (stack : List ℤ) (i : ℕ) :
    (dropExpired now stack i).Sublist stack := by
  unfold dropExpired
  split
  · split
    · exact List.eraseIdx_sublist _ _
    · exact List.Sublist.refl _
  · exact List.Sublist.refl _

lemma purge_sublist (now : ℤ) (stack : List ℤ) : (purge now stack).Sublist stack := by
  unfold purge
  induction List.range stack.length using List.reverseRecOn with
  | nil => exact List.Sublist.refl _
  | append_singleton is i ih =>
    rw [List.foldl_concat]
    exact (dropExpired_sublist now _ i).trans ih

lemma filter_purge (hp : ∀ t ∈ stack, Expired now t → p t = false) :
    (purge now stack).filter p = stack.filter p := by
  unfold purge
  generalize List.range stack.length = is
  induction is generalizing stack with
  | nil => rfl
  | cons i is ih =>
    have hsub := dropExpired_sublist now stack i
    rw [List.foldl_cons, ih fun t ht => hp t (hsub.subset ht), filter_dropExpired hp]

/-! ## Runs -/

namespace History

variable {h : History} {times : List ℤ}

lemma after_concat (times : List ℤ) (now : ℤ) :
    after (times ++ [now]) = (after times).call now := List.foldl_concat _ _ _ _

/-- The entries are of calls so far, there is room for them, and the starts lately are among
them. -/
structure Kept (times : List ℤ) (h : History) : Prop where
  mem : ∀ t ∈ h.stack, t ∈ times
  length_le : h.stack.length ≤ maxTries
  recent : ∀ now, (∀ t ∈ times, t ≤ now) →
    h.stack.filter (now - · ≤ timeDelta) = h.recent now

lemma call_of_full (hfull : maxTries ≤ h.stack.length) : h.call now = h := by
  simp [call, executable, hfull]

lemma call_of_room (hroom : ¬maxTries ≤ h.stack.length) :
    h.call now = ⟨purge now h.stack ++ [now], h.granted ++ [now]⟩ := by
  simp [call, executable, hroom]

/-- A call keeps the invariant. -/
lemma Kept.call (hh : Kept times h) (hle : ∀ t ∈ times, t ≤ now) :
    Kept (times ++ [now]) (h.call now) := by
  by_cases hfull : maxTries ≤ h.stack.length
  · rw [call_of_full hfull]
    exact ⟨fun t ht => List.mem_append_left _ (hh.mem t ht), hh.length_le, fun later hlater =>
      hh.recent later fun t ht => hlater t (List.mem_append_left _ ht)⟩
  have hsub := purge_sublist now h.stack
  rw [call_of_room hfull]
  refine ⟨fun t ht => ?_, ?_, fun later hlater => ?_⟩
  · rcases List.mem_append.1 ht with ht | ht
    · exact List.mem_append_left _ (hh.mem t (hsub.subset ht))
    · exact List.mem_append_right _ ht
  · have hlen := hsub.length_le
    show (purge now h.stack ++ [now]).length ≤ maxTries
    rw [List.length_append, List.length_singleton]
    omega
  · have hnow : now ≤ later := hlater now (List.mem_append_right _ List.mem_cons_self)
    have hexp : ∀ t ∈ h.stack, Expired now t → decide (later - t ≤ timeDelta) = false := by
      intro t ht hexp
      have hlt := hexp.lt (hle t (hh.mem t ht))
      rw [decide_eq_false_iff_not]
      omega
    have hrecent := hh.recent later fun t ht => hlater t (List.mem_append_left _ ht)
    show (purge now h.stack ++ [now]).filter _ = (h.granted ++ [now]).filter _
    rw [List.filter_append, List.filter_append, filter_purge hexp, hrecent, History.recent]

/-- Calls at times that do not decrease keep the invariant. -/
lemma kept_after (hs : times.Pairwise (· ≤ ·)) : Kept times (after times) := by
  induction times using List.reverseRecOn with
  | nil => exact ⟨by simp [after, start], by simp [after, start], fun now _ => rfl⟩
  | append_singleton times now ih =>
    obtain ⟨hs, -, hle⟩ := List.pairwise_append.1 hs
    rw [after_concat]
    exact (ih hs).call fun t ht => hle t ht now List.mem_cons_self

end History

/-- After calls at times that do not decrease, a call is right if and only if the array is not
full or everything in it is of the last `TIME_DELTA` seconds. -/
theorem executable_right_iff {times : List ℤ} {now : ℤ}
    (hs : (times ++ [now]).Pairwise (· ≤ ·)) :
    (History.after times).Right now ↔
      (History.after times).stack.length < maxTries ∨
        ∀ t ∈ (History.after times).stack, now - t ≤ timeDelta := by
  obtain ⟨hs, -, hle⟩ := List.pairwise_append.1 hs
  have hkept := History.kept_after hs
  have hrecent := hkept.recent now fun t ht => hle t ht now List.mem_cons_self
  have hlen := hkept.length_le
  unfold History.Right executable
  rw [← hrecent]
  have hfilter := List.length_filter_le (now - · ≤ timeDelta) (History.after times).stack
  by_cases hfull : maxTries ≤ (History.after times).stack.length
  · -- the array has `MAX_TRIES` entries, and all of them have to be recent
    have hall : maxTries ≤ ((History.after times).stack.filter (now - · ≤ timeDelta)).length ↔
        ∀ t ∈ (History.after times).stack, now - t ≤ timeDelta := by
      rw [← hlen.antisymm hfull, hfilter.ge_iff_eq, List.length_filter_eq_length_iff]
      simp only [decide_eq_true_eq]
    rw [if_pos hfull, hall, or_iff_right (not_lt.2 hfull)]
    constructor
    · intro h
      exact h.1.1 rfl
    · intro h
      exact ⟨⟨fun _ => h, fun _ => rfl⟩, fun hgrant => absurd hgrant (by simp)⟩
  · have hfew : ¬maxTries ≤ ((History.after times).stack.filter (now - · ≤ timeDelta)).length := by
      omega
    rw [if_neg hfull]
    refine iff_of_true ⟨?_, fun _ => ?_⟩ (.inl (not_le.1 hfull))
    · exact iff_of_false (by simp) hfew
    · exact List.mem_append_right _ List.mem_cons_self

/-- After one start a minute there is room for another one. -/
theorem executable_right_one : (History.after [0, 60]).Right 120 :=
  (executable_right_iff (by simp)).2 (.inl (by decide))

/-- A day after ten starts in one second the next one is refused. -/
theorem executable_wrong_day :
    (List.replicate 10 (0 : ℤ) ++ [86400]).Pairwise (· ≤ ·) ∧
      ((History.after (List.replicate 10 0)).recent 86400).length = 0 ∧
      ¬(History.after (List.replicate 10 0)).Right 86400 := by
  refine ⟨by decide, by decide, ?_⟩
  unfold History.Right
  decide

end WebTester.Supervisor
