import Mathlib.Algebra.Order.Group.Nat
import Mathlib.Data.Finset.Card
import Mathlib.Data.Int.Order.Basic
import WebTester.Belts

/-!
# The chain of a task

The testing modules put further modules into the array `lid[MAXCHAIN]` of a task, the scheduler
moves a cursor over it and sets it back when a module asks to wait. The array is followed by the
cursor itself.
-/
namespace WebTester.TaskChain
open Belts

def maxChain : ℕ := 32

/-- `wt_task_chaintest`: what it returns, unless it writes behind the array. -/
def wtTaskChaintest (t : Task) (lid : ℤ) : Option (ℤ × Task) :=
  if lid ∈ t.chain.lid ∨ t.lid = lid then some (-1, t)
  else if t.chain.lid.length < maxChain then
    some (0, { t with chain := { t.chain with lid := t.chain.lid ++ [lid] } })
  else none

/-- The body of the chain loop of `belts_overview_status`, and how it leaves the loop. -/
def chainStep (r : Start) (t : Task) : Option ChainEnd × Task :=
  let s := t.sendToChain r
  if s.1 then (some .sent, s.2)
  else if s.2.keepInQueue then
    (some .waiting, { s.2 with chain := { s.2.chain with cur := s.2.chain.cur - 1 } })
  else (none, s.2)

/-- The loop of the scheduler is made of these steps. -/
lemma chainLoop_succ (start : ℕ → Start) (fuel : ℕ) (t : Task) :
    chainLoop start (fuel + 1) t =
      if t.chainEmpty then (.exhausted, t)
      else match chainStep (start t.chain.cur) t with
        | (some e, t) => (e, t)
        | (none, t) => chainLoop start fuel t := by
  simp only [chainLoop, chainStep]
  split_ifs <;> rfl

/-- The array is the list of the unbounded chain as long as it has room. -/
lemma wtTaskChaintest_eq {t t' : Task} {lid r : ℤ} (h : wtTaskChaintest t lid = some (r, t')) :
    t' = t.chaintest lid := by
  unfold wtTaskChaintest at h
  unfold Task.chaintest
  split_ifs at h ⊢
  · exact (Prod.mk.inj (Option.some.inj h)).2.symm
  · exact (Prod.mk.inj (Option.some.inj h)).2.symm

/-- A task, the modules for which `wt_task_chaintest` has returned 0, and those that have taken the
task from the chain, in order. -/
structure State where
  task : Task
  accepted : List ℤ
  dispatched : List ℤ
  deriving DecidableEq, Repr

/-- A call of `wt_task_chaintest`, or a step of the chain loop with the answer of the module. -/
inductive Event
  | chaintest (lid : ℤ)
  | send (r : Start)
  deriving DecidableEq, Repr

def initial (sid lid : ℤ) : State := ⟨.spawnNewTask sid lid, [], []⟩

def step (s : State) : Event → Option State
  | .chaintest lid =>
    (wtTaskChaintest s.task lid).map fun r =>
      { s with task := r.2, accepted := if r.1 = (0 : ℤ) then s.accepted ++ [lid] else s.accepted }
  | .send r =>
    if s.task.chainEmpty then some s
    else
      let c := chainStep r s.task
      some { s with
        task := c.2
        dispatched :=
          if c.1 = some .sent then s.dispatched ++ [c.2.chain.curLid] else s.dispatched }

/-- The modules that are asked for. -/
def requested (es : List Event) : List ℤ :=
  es.filterMap fun
    | .chaintest lid => some lid
    | .send _ => none

/-- The bounds and the order of the chain. -/
structure Sound (s : State) : Prop where
  cur_le : s.task.chain.cur ≤ s.task.chain.lid.length
  last_le : s.task.chain.lid.length ≤ maxChain
  distinct : s.task.chain.lid.Nodup
  own : s.task.lid ∉ s.task.chain.lid
  accepted : s.accepted.Nodup
  dispatched : s.dispatched.Sublist s.accepted

/-- What the steps keep: the accepted modules are the chain, and those that have taken the task are
behind the cursor. -/
structure Inv (own : ℤ) (es : List Event) (s : State) : Prop where
  cur_le : s.task.chain.cur ≤ s.task.chain.lid.length
  last_le : s.task.chain.lid.length ≤ maxChain
  distinct : s.task.chain.lid.Nodup
  lid : s.task.lid = own
  accepted : s.accepted = s.task.chain.lid
  dispatched : s.dispatched.Sublist (s.task.chain.lid.take s.task.chain.cur)
  mem : s.task.chain.lid.toFinset = (requested es).toFinset.erase own

section Steps

variable {own : ℤ} {es : List Event} {s t : State} {e : Event}

lemma Inv.sound (h : Inv own es s) : Sound s where
  cur_le := h.cur_le
  last_le := h.last_le
  distinct := h.distinct
  own := by
    rw [h.lid, ← List.mem_toFinset, h.mem]
    exact Finset.notMem_erase own _
  accepted := h.accepted ▸ h.distinct
  dispatched := h.accepted ▸ h.dispatched.trans (List.take_sublist _ _)

lemma Inv.length_eq (h : Inv own es s) :
    s.task.chain.lid.length = ((requested es).toFinset.erase own).card := by
  rw [← h.mem, List.toFinset_card_of_nodup h.distinct]

lemma inv_initial (sid own : ℤ) : Inv own [] (initial sid own) where
  cur_le := le_rfl
  last_le := Nat.zero_le _
  distinct := List.nodup_nil
  lid := rfl
  accepted := rfl
  dispatched := List.Sublist.refl _
  mem := rfl

lemma requested_chaintest (es : List Event) (lid : ℤ) :
    (requested (es ++ [.chaintest lid])).toFinset = insert lid (requested es).toFinset := by
  simp [requested]

lemma requested_send (es : List Event) (r : Start) :
    requested (es ++ [.send r]) = requested es := by
  simp [requested]

/-- A refusal leaves the cursor at the module when the task is to be kept, and moves it on
otherwise. -/
lemma chainStep_refused (keep : Bool) (t : Task) :
    chainStep (.refused keep) t =
      let u := (t.sendToChain (.refused keep)).2
      if t.keepInQueue || keep then
        (some .waiting, { u with chain := { u.chain with cur := t.chain.cur } })
      else (none, u) := rfl

lemma chainStep_frame (r : Start) (t : Task) :
    (chainStep r t).2.lid = t.lid ∧ (chainStep r t).2.chain.lid = t.chain.lid := by
  cases r with
  | started => exact ⟨rfl, rfl⟩
  | refused keep =>
    rw [chainStep_refused]
    dsimp only
    split
    · exact ⟨rfl, rfl⟩
    · exact ⟨rfl, rfl⟩

/-- A step of the chain loop moves the cursor by one place or not at all; a module takes the task
only when the cursor is moved past it. -/
lemma chainStep_cases (r : Start) (t : Task) :
    ((chainStep r t).1 = some .sent ∧ (chainStep r t).2.chain.cur = t.chain.cur + 1 ∧
        (chainStep r t).2.chain.curLid = t.chain.lid.getD t.chain.cur 0) ∨
      ((chainStep r t).1 ≠ some .sent ∧
        ((chainStep r t).2.chain.cur = t.chain.cur ∨
          (chainStep r t).2.chain.cur = t.chain.cur + 1)) := by
  cases r with
  | started => exact .inl ⟨rfl, rfl, rfl⟩
  | refused keep =>
    rw [chainStep_refused]
    dsimp only
    refine .inr ?_
    split
    · exact ⟨by simp, .inl rfl⟩
    · exact ⟨by simp, .inr rfl⟩

lemma Inv.send (h : Inv own es s) {r : Start} (hs : step s (.send r) = some t) :
    Inv own (es ++ [.send r]) t := by
  rw [step] at hs
  split_ifs at hs with hempty
  · obtain rfl := Option.some.inj hs
    exact { h with mem := by rw [requested_send, h.mem] }
  · obtain rfl := Option.some.inj hs
    obtain ⟨hlid, hchain⟩ := chainStep_frame r s.task
    have hcur : s.task.chain.cur < s.task.chain.lid.length := by
      simpa [Task.chainEmpty] using hempty
    have hget : s.task.chain.lid.getD s.task.chain.cur 0 = s.task.chain.lid[s.task.chain.cur] :=
      by rw [List.getD_eq_getElem?_getD, List.getElem?_eq_getElem hcur, Option.getD_some]
    refine ⟨?_, ?_, ?_, ?_, ?_, ?_, ?_⟩
    · dsimp only
      rw [hchain]
      rcases chainStep_cases r s.task with ⟨-, hmoved, -⟩ | ⟨-, hmoved | hmoved⟩ <;> omega
    · exact hchain ▸ h.last_le
    · exact hchain ▸ h.distinct
    · exact hlid.trans h.lid
    · exact h.accepted.trans hchain.symm
    · dsimp only
      rw [hchain]
      rcases chainStep_cases r s.task with ⟨hsent, hmoved, hcurLid⟩ | ⟨hsent, hmoved | hmoved⟩
      · rw [if_pos hsent, hmoved, hcurLid, hget, List.take_succ_eq_append_getElem hcur]
        exact h.dispatched.append (List.Sublist.refl _)
      · rw [if_neg hsent, hmoved]
        exact h.dispatched
      · rw [if_neg hsent, hmoved]
        exact h.dispatched.trans (List.take_sublist_take_left (Nat.le_succ _))
    · rw [hchain, requested_send, h.mem]

lemma Inv.chaintest (h : Inv own es s) {lid : ℤ} (hs : step s (.chaintest lid) = some t) :
    Inv own (es ++ [.chaintest lid]) t := by
  obtain ⟨⟨r, task⟩, hcall, rfl⟩ := Option.map_eq_some_iff.1 hs
  unfold wtTaskChaintest at hcall
  split_ifs at hcall with hfound hroom
  · obtain ⟨rfl, rfl⟩ := Prod.mk.inj (Option.some.inj hcall)
    refine { h with accepted := ?_, mem := ?_ }
    · exact h.accepted
    · rw [requested_chaintest, h.mem]
      rw [h.lid, ← List.mem_toFinset, h.mem] at hfound
      rcases hfound with hmem | rfl
      · rw [Finset.insert_eq_of_mem (Finset.mem_of_mem_erase hmem)]
      · rw [Finset.erase_insert_eq_erase]
  · obtain ⟨rfl, rfl⟩ := Prod.mk.inj (Option.some.inj hcall)
    rw [not_or] at hfound
    obtain ⟨hnew, hown⟩ := hfound
    refine ⟨?_, ?_, ?_, h.lid, ?_, ?_, ?_⟩
    · rw [List.length_append]
      exact h.cur_le.trans (Nat.le_add_right _ _)
    · rw [List.length_append]
      exact hroom
    · exact List.nodup_append.2 ⟨h.distinct, List.nodup_singleton lid, by
        intro a ha b hb
        rw [List.mem_singleton.1 hb]
        exact fun heq => hnew (heq ▸ ha)⟩
    · dsimp only
      rw [if_pos rfl, h.accepted]
    · rw [List.take_append_of_le_length h.cur_le]
      exact h.dispatched
    · dsimp only
      rw [h.lid] at hown
      rw [requested_chaintest, Finset.erase_insert_of_ne (Ne.symm hown), ← h.mem,
        List.toFinset_append]
      ext a
      simp

lemma Inv.step (h : Inv own es s) (hs : step s e = some t) : Inv own (es ++ [e]) t := by
  cases e with
  | chaintest lid => exact h.chaintest hs
  | send r => exact h.send hs

/-- A step leaves the array only at a new module when the chain is full. -/
lemma Inv.step_isSome (h : Inv own es s)
    (hroom : ((requested (es ++ [e])).toFinset.erase own).card ≤ maxChain) :
    (TaskChain.step s e).isSome := by
  cases e with
  | send r =>
    rw [TaskChain.step]
    split_ifs <;> rfl
  | chaintest lid =>
    rw [TaskChain.step, Option.isSome_map, wtTaskChaintest]
    split_ifs with hfound hlt
    · rfl
    · rfl
    · rw [not_or, h.lid, ← List.mem_toFinset, h.mem] at hfound
      rw [requested_chaintest, Finset.erase_insert_of_ne (Ne.symm hfound.2),
        Finset.card_insert_of_notMem hfound.1, ← h.length_eq] at hroom
      exact absurd hroom hlt

end Steps

lemma run_inv {sid own : ℤ} {es : List Event} {s : State}
    (h : es.foldlM step (initial sid own) = some s) : Inv own es s := by
  induction es using List.reverseRecOn generalizing s with
  | nil =>
    obtain rfl := Option.some.inj h
    exact inv_initial sid own
  | append_singleton es e ih =>
    rw [Transition.foldlM_concat, Option.bind_eq_some_iff] at h
    obtain ⟨t, ht, h⟩ := h
    exact (ih ht).step h

lemma card_requested_le (own : ℤ) (es fs : List Event) :
    ((requested es).toFinset.erase own).card ≤
      ((requested (es ++ fs)).toFinset.erase own).card := by
  refine Finset.card_le_card (Finset.erase_subset_erase _ fun a ha => ?_)
  simp only [requested, List.filterMap_append, List.toFinset_append, Finset.mem_union]
  exact .inl ha

lemma run_isSome (sid : ℤ) {own : ℤ} {es : List Event}
    (h : ((requested es).toFinset.erase own).card ≤ maxChain) :
    (es.foldlM step (initial sid own)).isSome := by
  induction es using List.reverseRecOn with
  | nil => rfl
  | append_singleton es e ih =>
    obtain ⟨s, hs⟩ := Option.isSome_iff_exists.1 (ih ((card_requested_le own es [e]).trans h))
    obtain ⟨t, ht⟩ := Option.isSome_iff_exists.1 ((run_inv hs).step_isSome h)
    rw [Transition.foldlM_concat, hs, Option.bind_some, ht]
    rfl

/-- In every state of a run the chain is sound, if and only if no more than `MAXCHAIN` different
modules besides the first one are asked for. -/
theorem sound_iff (sid own : ℤ) (es : List Event) :
    (∀ pre, pre <+: es → ∃ s, pre.foldlM step (initial sid own) = some s ∧ Sound s) ↔
      ((requested es).toFinset.erase own).card ≤ maxChain := by
  constructor
  · intro h
    obtain ⟨s, hs, -⟩ := h es (List.prefix_refl es)
    have hinv := run_inv hs
    exact hinv.length_eq ▸ hinv.last_le
  · rintro h pre ⟨post, rfl⟩
    obtain ⟨s, hs⟩ := Option.isSome_iff_exists.1
      (run_isSome sid ((card_requested_le own pre post).trans h))
    exact ⟨s, hs, (run_inv hs).sound⟩

/-- The modules 1 to 33 are asked for. -/
def longChain : List Event := (List.range 33).map fun i => .chaintest (i + 1)

theorem long_chain_outside_array : longChain.foldlM step (initial 1 0) = none := by
  decide +kernel

end WebTester.TaskChain
