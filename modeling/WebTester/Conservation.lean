import Mathlib.Data.List.Nodup
import WebTester.Moves

/-!
# Every accepted task has exactly one place

The places are the three lists and the three ways in which the scheduler lets a
task go. The occurrences of a task over all places add up to one, which says at
once that the task is somewhere, that it is nowhere else, and that it was not
delivered, restored or discarded a second time.
-/
namespace WebTester.Belts
open Transition

/-- The call that drops `p` as a duplicate. -/
def Call.isDiscard (p : ℕ) : Call → Bool
  | .discard q _ => q == p
  | _ => false

/-- Where an accepted task can be. -/
inductive Place
  | queue
  | belts
  | accumulator
  | delivered
  | restored
  | discarded
  deriving DecidableEq, Repr

namespace Server

def held (s : Server) : List ℕ := s.accumulator.getD []

/-- How often a task is in a place. A task counts as delivered when
`wt_put_solution` has returned zero for it. -/
def occurrences (s : Server) (p : ℕ) : Place → ℕ
  | .queue => s.queue.count p
  | .belts => s.belts.count p
  | .accumulator => s.held.count p
  | .delivered => s.calls.count (.put p true)
  | .restored => s.calls.count (.restore p)
  | .discarded => s.calls.countP (Call.isDiscard p)

/-- Occurrences of a task over all places. -/
def places (s : Server) (p : ℕ) : ℕ :=
  s.occurrences p .queue + s.occurrences p .belts + s.occurrences p .accumulator +
    s.occurrences p .delivered + s.occurrences p .restored + s.occurrences p .discarded

/-- A total of one is one occurrence in one place. -/
lemma exists_place {s : Server} {p : ℕ} (h : s.places p = 1) :
    ∃ pl, s.occurrences p pl = 1 ∧ ∀ pl', pl' ≠ pl → s.occurrences p pl' = 0 := by
  unfold places at h
  have hpos : ∃ pl, s.occurrences p pl ≠ 0 := by
    by_contra hall
    push Not at hall
    simp only [hall] at h
    omega
  obtain ⟨pl, hpl⟩ := hpos
  refine ⟨pl, ?_, fun pl' hne => ?_⟩
  · cases pl <;> omega
  · cases pl <;> cases pl' <;> first | omega | exact absurd rfl hne

/-! ## Counting over one move -/

lemma places_acceptTask (s : Server) (k : ℤ × ℤ) (p : ℕ) :
    (s.acceptTask k).places p = s.places p + if p = s.spawned then 1 else 0 := by
  by_cases h : p = s.spawned
  · simp [places, occurrences, held, acceptTask, Call.isDiscard, h]
    omega
  · simp [places, occurrences, held, acceptTask, Call.isDiscard, h, Ne.symm h]

lemma count_erase_add {l : List ℕ} {p : ℕ} (hp : p ∈ l) (q : ℕ) :
    (l.erase p).count q + (if q = p then 1 else 0) = l.count q := by
  have hpos : 0 < l.count p := List.count_pos_iff.2 hp
  by_cases h : q = p
  · subst h
    simp only [List.count_erase_self, if_pos]
    omega
  · simp [List.count_erase_of_ne h, h]

lemma Filled.places_eq {s t : Server} {p : ℕ} (h : Filled s p t) (hp : p ∈ s.queue) (q : ℕ) :
    t.places q = s.places q := by
  have he := count_erase_add hp q
  by_cases hq : q = p
  · subst hq
    cases h <;> simp [places, occurrences, held, setTask, log, Call.isDiscard] at he ⊢ <;> omega
  · have hpq : p ≠ q := Ne.symm hq
    cases h <;> simp [places, occurrences, held, setTask, log, Call.isDiscard, hq, hpq] at he ⊢

lemma Overviewed.places_eq {s t : Server} {p : ℕ} (h : Overviewed s p t) (hp : p ∈ s.belts)
    (q : ℕ) : t.places q = s.places q := by
  have he := count_erase_add hp q
  by_cases hq : q = p
  · subst hq
    cases h <;> simp [places, occurrences, held, setTask, log, Call.isDiscard] at he ⊢ <;> omega
  · have hpq : p ≠ q := Ne.symm hq
    cases h <;> simp [places, occurrences, held, setTask, log, Call.isDiscard, hq, hpq] at he ⊢

lemma places_resent {s : Server} {p : ℕ} {acc : List ℕ} (hacc : s.accumulator = some acc)
    (hp : p ∈ acc) (q : ℕ) :
    ({ s with accumulator := some (acc.erase p) }.log [.put p true, .free p]).places q =
      s.places q := by
  have he := count_erase_add hp q
  by_cases hq : q = p
  · subst hq
    simp [places, occurrences, held, log, Call.isDiscard, hacc] at he ⊢
    omega
  · have hpq : p ≠ q := Ne.symm hq
    simp [places, occurrences, held, log, Call.isDiscard, hacc, hq, hpq]

/-- Calls that are no outcome do not move a task. -/
lemma places_log {s : Server} {c : Call} {q : ℕ} (hput : c ≠ .put q true)
    (hres : c ≠ .restore q) (hdis : c.isDiscard q = false) :
    (s.log [c]).places q = s.places q := by
  simp [places, occurrences, held, log, hput, hres, hdis]

/-- Accepted tasks have one place, the others have none. -/
def Conserved (s : Server) : Prop :=
  ∀ p, s.places p = if p < s.spawned then 1 else 0

lemma Conserved.move {cfg : Config} {s t : Server} {m : Move} (hs : s.Conserved)
    (h : Moves cfg s m t) : t.Conserved := by
  intro p
  have hp := hs p
  cases h with
  | accept hroom hq hb =>
    rw [places_acceptTask, hp]
    rcases Nat.lt_trichotomy p s.spawned with hlt | heq | hgt
    · simp [acceptTask, hlt, hlt.ne, Nat.lt_succ_of_lt hlt]
    · simp [acceptTask, heq]
    · simp [acceptTask, hgt.ne', not_lt.2 hgt.le, not_lt.2 (Nat.succ_le_of_lt hgt)]
  | fill hmem hroom h =>
    rw [h.places_eq hmem, hp]
    cases h <;> rfl
  | overview hmem h =>
    rw [h.places_eq hmem, hp]
    cases h <;> rfl
  | resent hacc hmem =>
    rw [places_resent hacc hmem, hp]
    rfl
  | unsent hacc hmem =>
    rw [places_log (by simp) (by simp) rfl, hp]
    rfl
  | destroy hacc =>
    rw [← hp]
    simp [places, occurrences, held, hacc]
  | take hmem => exact (places_log (by simp) (by simp) rfl).trans hp
  | chaintest hmem => exact hp
  | finish hmem => exact (places_log (by simp) (by simp) rfl).trans hp
  | status => exact hp

namespace Conserved

variable {s : Server} {p : ℕ}

/-- A task found in one place is in no other one, and only once there. -/
lemma of_occurrences (hs : s.Conserved) (pl : Place) (hp : s.occurrences p pl ≠ 0) :
    p < s.spawned ∧ s.occurrences p pl = 1 ∧
      ∀ pl', pl' ≠ pl → s.occurrences p pl' = 0 := by
  have h := hs p
  have hlt : p < s.spawned := by
    by_contra hlt
    rw [if_neg hlt, places] at h
    cases pl <;> omega
  rw [if_pos hlt] at h
  obtain ⟨pl', hone, hzero⟩ := exists_place h
  obtain rfl : pl' = pl := by
    by_contra hne
    exact hp (hzero pl (Ne.symm hne))
  exact ⟨hlt, hone, hzero⟩

lemma of_mem_queue (hs : s.Conserved) (hp : p ∈ s.queue) :
    p < s.spawned ∧ p ∉ s.belts ∧ p ∉ s.queue.erase p := by
  obtain ⟨hlt, hone, hzero⟩ := hs.of_occurrences (p := p) .queue
    (List.count_pos_iff.2 hp).ne'
  refine ⟨hlt, List.count_eq_zero.1 (hzero .belts (by simp)), ?_⟩
  rw [← List.count_eq_zero, List.count_erase_self]
  simpa [occurrences] using congrArg (· - 1) hone

lemma of_mem_belts (hs : s.Conserved) (hp : p ∈ s.belts) :
    p < s.spawned ∧ p ∉ s.queue ∧ p ∉ s.belts.erase p := by
  obtain ⟨hlt, hone, hzero⟩ := hs.of_occurrences (p := p) .belts
    (List.count_pos_iff.2 hp).ne'
  refine ⟨hlt, List.count_eq_zero.1 (hzero .queue (by simp)), ?_⟩
  rw [← List.count_eq_zero, List.count_erase_self]
  simpa [occurrences] using congrArg (· - 1) hone

lemma not_mem_belts_of_mem_held (hs : s.Conserved) (hp : p ∈ s.held) : p ∉ s.belts := by
  obtain ⟨-, -, hzero⟩ := hs.of_occurrences (p := p) .accumulator
    (List.count_pos_iff.2 hp).ne'
  exact List.count_eq_zero.1 (hzero .belts (by simp))

lemma nodup_belts (hs : s.Conserved) : s.belts.Nodup := by
  rw [List.nodup_iff_count_le_one]
  intro p
  by_contra hlt
  have hpos : s.occurrences p .belts ≠ 0 := by
    simp only [occurrences]
    omega
  exact hlt (hs.of_occurrences .belts hpos).2.1.le

end Conserved
end Server

/-! ## Duplicates -/

/-- A task that is discarded is discarded for one that was put on the belts and
has not left them. -/
def StillInBelts (pre : List Call) : Call → Prop
  | .discard _ q => (∃ lid, .dispatch q lid ∈ pre) ∧ .leave q ∉ pre
  | _ => True

/-- What the calls made so far say about the lists. -/
structure Traced (s : Server) : Prop where
  accepted : ∀ p, .accept p ∈ s.calls ↔ p < s.spawned
  shelved : ∀ p ∈ s.belts, ∃ lid, .dispatch p lid ∈ s.calls
  left : ∀ p, .leave p ∈ s.calls → p < s.spawned ∧ p ∉ s.queue ∧ p ∉ s.belts
  discards : Throughout StillInBelts s.calls
  duplicates : ∀ p q, .discard p q ∈ s.calls →
    p < s.spawned ∧ q < s.spawned ∧ (s.mem q).key = (s.mem p).key

lemma traced_initial : Traced initial where
  accepted := by simp [initial]
  shelved := by simp [initial]
  left := by simp [initial]
  discards := Throughout.nil
  duplicates := by simp [initial]

/-- The invariant after a move that logs `cs` and accepts no task. -/
lemma Traced.extend {cfg : Config} {s t : Server} {m : Move} {cs : List Call} (hs : Traced s)
    (h : Moves cfg s m t) (hcalls : t.calls = s.calls ++ cs) (hspawned : t.spawned = s.spawned)
    (haccept : ∀ p, .accept p ∉ cs)
    (hshelved : ∀ p ∈ t.belts, p ∈ s.belts ∨ ∃ lid, .dispatch p lid ∈ cs)
    (hfrom : ∀ p, p ∈ t.queue ∨ p ∈ t.belts → p ∈ s.queue ∨ p ∈ s.belts)
    (hleft : ∀ p, .leave p ∈ cs → p < s.spawned ∧ p ∉ t.queue ∧ p ∉ t.belts)
    (hdiscards : Throughout StillInBelts (s.calls ++ cs))
    (hdup : ∀ p q, .discard p q ∈ cs →
      p < s.spawned ∧ q < s.spawned ∧ (s.mem q).key = (s.mem p).key) : Traced t where
  accepted p := by simp [hcalls, hspawned, haccept, hs.accepted]
  shelved p hp := by
    rw [hcalls]
    rcases hshelved p hp with hb | ⟨lid, hlid⟩
    · obtain ⟨lid, hlid⟩ := hs.shelved p hb
      exact ⟨lid, List.mem_append_left _ hlid⟩
    · exact ⟨lid, List.mem_append_right _ hlid⟩
  left p hp := by
    rw [hcalls, List.mem_append] at hp
    rw [hspawned]
    rcases hp with hp | hp
    · obtain ⟨hlt, hq, hb⟩ := hs.left p hp
      exact ⟨hlt, fun hq' => (hfrom p (.inl hq')).elim hq hb,
        fun hb' => (hfrom p (.inr hb')).elim hq hb⟩
    · exact hleft p hp
  discards := by rwa [hcalls]
  duplicates p q hpq := by
    rw [hcalls, List.mem_append] at hpq
    have hd : p < s.spawned ∧ q < s.spawned ∧ (s.mem q).key = (s.mem p).key :=
      hpq.elim (hs.duplicates p q) (hdup p q)
    rw [hspawned, h.key_eq hd.1, h.key_eq hd.2.1]
    exact hd

/-- A move that logs neither a leave nor a discard and puts no task on the belts
without a dispatch. -/
lemma Traced.extend_quiet {cfg : Config} {s t : Server} {m : Move} (hs : Traced s)
    (cs : List Call) (h : Moves cfg s m t) (hcalls : t.calls = s.calls ++ cs)
    (hspawned : t.spawned = s.spawned)
    (hquiet : ∀ p q, .accept p ∉ cs ∧ .leave p ∉ cs ∧ .discard p q ∉ cs)
    (hshelved : ∀ p ∈ t.belts, p ∈ s.belts ∨ ∃ lid, .dispatch p lid ∈ cs)
    (hfrom : ∀ p, p ∈ t.queue ∨ p ∈ t.belts → p ∈ s.queue ∨ p ∈ s.belts) : Traced t := by
  refine hs.extend h hcalls hspawned (fun p => (hquiet p p).1) hshelved hfrom
    (fun p hp => absurd hp (hquiet p p).2.1) (hs.discards.append fun c hc pre => ?_)
    (fun p q hpq => absurd hpq (hquiet p q).2.2)
  cases c with
  | discard p q => exact absurd hc (hquiet p q).2.2
  | _ => trivial

lemma Traced.accept {cfg : Config} {s : Server} {k : ℤ × ℤ} (hs : Traced s)
    (h : Moves cfg s (.accept k) (s.acceptTask k)) : Traced (s.acceptTask k) where
  accepted p := by
    simp only [Server.acceptTask, List.mem_append, hs.accepted, List.mem_singleton,
      Call.accept.injEq]
    omega
  shelved p hp := by
    obtain ⟨lid, hlid⟩ := hs.shelved p hp
    exact ⟨lid, List.mem_append_left _ hlid⟩
  left p hp := by
    obtain ⟨hlt, hq, hb⟩ := hs.left p (by simpa [Server.acceptTask] using hp)
    refine ⟨Nat.lt_succ_of_lt hlt, ?_, hb⟩
    simpa [Server.acceptTask, hq] using hlt.ne
  discards := hs.discards.append (by simp [StillInBelts])
  duplicates p q hpq := by
    have hd := hs.duplicates p q (by simpa [Server.acceptTask] using hpq)
    rw [h.key_eq hd.1, h.key_eq hd.2.1]
    exact ⟨Nat.lt_succ_of_lt hd.1, Nat.lt_succ_of_lt hd.2.1, hd.2.2⟩

lemma Traced.fill {cfg : Config} {s t : Server} {p : ℕ} (hc : s.Conserved) (hs : Traced s)
    (h : Moves cfg s (.fill p) t) (hmem : p ∈ s.queue) (hf : s.Filled p t) : Traced t := by
  have hsub : ∀ r, r ∈ s.queue.erase p → r ∈ s.queue := fun r => List.mem_of_mem_erase
  cases hf with
  | @duplicate q hq hk =>
    have hleave : .leave q ∉ s.calls := fun hl => (hs.left q hl).2.2 hq
    refine hs.extend h rfl rfl ?_ (fun r hr => .inl hr) (fun r hr => hr.imp_left (hsub r)) ?_ ?_ ?_
    · simp
    · simp
    · have hstill : StillInBelts s.calls (.discard p q) := ⟨hs.shelved q hq, hleave⟩
      rw [List.append_cons]
      exact (hs.discards.concat hstill).append (by simp [StillInBelts])
    · intro p' q' hpq
      obtain ⟨rfl, rfl⟩ : p' = p ∧ q' = q := by simpa using hpq
      exact ⟨(hc.of_mem_queue hmem).1, (hc.of_mem_belts hq).1, hk⟩
  | sent hnew hk hst =>
    refine hs.extend_quiet _ h rfl rfl (by simp) ?_ ?_
    · intro r hr
      rcases List.mem_append.1 hr with hr | hr
      · exact .inl hr
      · obtain rfl := List.mem_singleton.1 hr
        exact .inr ⟨_, List.mem_singleton.2 rfl⟩
    · rintro r (hr | hr)
      · exact .inl (hsub r hr)
      · rcases List.mem_append.1 hr with hr | hr
        · exact .inr hr
        · obtain rfl := List.mem_singleton.1 hr
          exact .inl hmem
  | kept hk hst =>
    refine hs.extend_quiet [] h (by simp [Server.setTask]) rfl (by simp)
      (fun r hr => .inl hr) (fun r hr => hr.imp_left fun hq => ?_)
    rcases List.mem_cons.1 hq with rfl | hq
    · exact hmem
    · exact hsub r hq
  | restored hk hst =>
    exact hs.extend_quiet _ h rfl rfl (by simp) (fun r hr => .inl hr)
      (fun r hr => hr.imp_left (hsub r))

/-- A task that leaves the belts is in neither list afterwards. -/
lemma Traced.leave {cfg : Config} {s t : Server} {m : Move} {p : ℕ} {cs : List Call}
    (hc : s.Conserved) (hs : Traced s) (h : Moves cfg s m t) (hmem : p ∈ s.belts)
    (hcalls : t.calls = s.calls ++ cs) (hspawned : t.spawned = s.spawned)
    (hqueue : t.queue = s.queue) (hbelts : t.belts = s.belts.erase p)
    (hquiet : ∀ r q, .accept r ∉ cs ∧ .discard r q ∉ cs ∧ (.leave r ∈ cs → r = p)) :
    Traced t := by
  obtain ⟨hlt, hnq, hne⟩ := hc.of_mem_belts hmem
  refine hs.extend h hcalls hspawned (fun r => (hquiet r r).1) ?_ ?_ ?_
    (hs.discards.append fun c hcs pre => ?_) (fun r q hrq => absurd hrq (hquiet r q).2.1)
  · rw [hbelts]
    exact fun r hr => .inl (List.mem_of_mem_erase hr)
  · rw [hqueue, hbelts]
    exact fun r hr => hr.imp_right List.mem_of_mem_erase
  · intro r hr
    obtain rfl := (hquiet r r).2.2 hr
    rw [hqueue, hbelts]
    exact ⟨hlt, hnq, hne⟩
  · cases c with
    | discard r q => exact absurd hcs (hquiet r q).2.1
    | _ => trivial

lemma Traced.overview {cfg : Config} {s t : Server} {p : ℕ} (hc : s.Conserved) (hs : Traced s)
    (h : Moves cfg s (.overview p) t) (hmem : p ∈ s.belts) (ho : s.Overviewed p t) :
    Traced t := by
  cases ho with
  | idle hf hi => exact hs
  | chained hf hk hst =>
    exact hs.extend_quiet _ h rfl rfl (by simp) (fun r hr => .inl hr) (fun r hr => hr)
  | waiting hf hk hst =>
    exact hs.extend_quiet [] h (by simp [Server.setTask]) rfl (by simp)
      (fun r hr => .inl hr) (fun r hr => hr)
  | delivered hf hk hst => exact hs.leave hc h hmem rfl rfl rfl rfl (by simp)
  | accumulated hf hk hst => exact hs.leave hc h hmem rfl rfl rfl rfl (by simp)
  | interrupted hi => exact hs.leave hc h hmem rfl rfl rfl rfl (by simp)

lemma Traced.move {cfg : Config} {s t : Server} {m : Move} (hc : s.Conserved) (hs : Traced s)
    (h : Moves cfg s m t) : Traced t := by
  have h' := h
  cases h with
  | accept hroom hq hb => exact hs.accept h'
  | fill hmem hroom hf => exact hs.fill hc h' hmem hf
  | overview hmem ho => exact hs.overview hc h' hmem ho
  | resent hacc hmem =>
    exact hs.extend_quiet _ h' rfl rfl (by simp) (fun r hr => .inl hr) (fun r hr => hr)
  | unsent hacc hmem =>
    exact hs.extend_quiet _ h' rfl rfl (by simp) (fun r hr => .inl hr) (fun r hr => hr)
  | destroy hacc =>
    exact hs.extend_quiet [] h' (by simp) rfl (by simp) (fun r hr => .inl hr)
      (fun r hr => hr)
  | take hmem =>
    exact hs.extend_quiet _ h' rfl rfl (by simp) (fun r hr => .inl hr) (fun r hr => hr)
  | chaintest hmem =>
    exact hs.extend_quiet [] h' (by simp [Server.setTask]) rfl (by simp)
      (fun r hr => .inl hr) (fun r hr => hr)
  | finish hmem =>
    exact hs.extend_quiet _ h' rfl rfl (by simp) (fun r hr => .inl hr) (fun r hr => hr)
  | status =>
    exact hs.extend_quiet [] h' (by simp [Server.setStatus, Server.setTask]) rfl (by simp)
      (fun r hr => .inl hr) (fun r hr => hr)

lemma conserved_initial : initial.Conserved := by
  intro p
  simp [initial, Server.places, Server.occurrences, Server.held]

/-- Both invariants hold in every state the server reaches. -/
lemma accounted {cfg : Config} {es : List Event} {s : Server}
    (hr : Run (Step cfg) initial es s) : s.Conserved ∧ Traced s :=
  invariant_of_moves (I := fun s => s.Conserved ∧ Traced s)
    (fun _ _ _ hs h => ⟨hs.1.move h, hs.2.move hs.1 h⟩) hr ⟨conserved_initial, traced_initial⟩

/-- Whatever the web interface, the modules and the workers answer, an accepted
task occurs once in exactly one place; a discarded one has the identity of a task
that was on the belts when it was discarded. -/
theorem exists_place_of_run {cfg : Config} {es : List Event} {s : Server}
    (hr : Run (Step cfg) initial es s) :
    (∀ p, .accept p ∈ s.calls → ∃ pl, s.occurrences p pl = 1 ∧
      ∀ pl', pl' ≠ pl → s.occurrences p pl' = 0) ∧
    (∀ p pl, .accept p ∉ s.calls → s.occurrences p pl = 0) ∧
    (∀ p q, .discard p q ∈ s.calls → (s.mem q).key = (s.mem p).key) ∧
    Throughout StillInBelts s.calls := by
  obtain ⟨hc, ht⟩ := accounted hr
  refine ⟨fun p hp => ?_, fun p pl hp => ?_, fun p q hpq => (ht.duplicates p q hpq).2.2,
    ht.discards⟩
  · have hone := hc p
    rw [if_pos ((ht.accepted p).1 hp)] at hone
    exact Server.exists_place hone
  · have hzero := hc p
    rw [if_neg (mt (ht.accepted p).2 hp), Server.places] at hzero
    cases pl <;> omega

/-- Every request succeeds. -/
def allGranted : Answers where
  replied _ := true
  start _ _ := .started
  sent _ := true

end WebTester.Belts
