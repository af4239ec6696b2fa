import WebTester.Transition
import Mathlib.Data.List.Nodup
import Mathlib.Data.List.Range
import Mathlib.Data.List.Perm.Subperm

/-!
# Unique numbers of processes

The pool is a stack of 65536 numbers of the type `unsigned short`. The cells from `ptr` on hold
the numbers that are free. `run_create_process` takes one for a new record and
`run_free_process` gives back what the record holds, which is -1 when the pool was empty. The
two calls are made under a mutex.
-/
namespace WebTester.Librun.Unique
open Transition

/-- `MAX_UNIQUE`. -/
@[irreducible] def maxUnique : ℕ := 65536

lemma maxUnique_eq : maxUnique = 65536 := by
  unfold maxUnique
  rfl

/-- `unique_pool_t`. -/
structure Pool where
  stack : ℕ → BitVec 16
  ptr : ℕ

/-- `unique_pool_create`. -/
def poolCreate : Pool := ⟨fun i => BitVec.ofNat 16 i, 0⟩

/-- `unique_alloc_uid`. -/
def allocUid (pool : Pool) : ℤ × Pool :=
  if maxUnique ≤ pool.ptr then (-1, pool)
  else ((pool.stack pool.ptr).toNat, { pool with ptr := pool.ptr + 1 })

/-- `unique_release_uid`. -/
def releaseUid (pool : Pool) (uid : BitVec 16) : Pool :=
  if pool.ptr = 0 then pool
  else ⟨Function.update pool.stack (pool.ptr - 1) uid, pool.ptr - 1⟩

/-- A record of a process; `id` stands for its address. -/
structure Process where
  id : ℕ
  unique : ℤ
  deriving DecidableEq, Repr

/-- What `run_execute_process` asks of a process. -/
def Process.accepted (p : Process) : Bool := 0 ≤ p.unique

structure World where
  pool : Pool
  created : ℕ
  alive : List Process

def initial : World := ⟨poolCreate, 0, []⟩

inductive Event
  | create
  | free (p : Process)
  deriving DecidableEq, Repr

/-- `run_create_process` and `run_free_process`; the number is passed as an `int` and converted to
`unsigned short`. -/
def next (w : World) : Event → Option World
  | .create =>
    let r := allocUid w.pool
    some ⟨r.2, w.created + 1, w.alive ++ [⟨w.created, r.1⟩]⟩
  | .free p =>
    if p ∈ w.alive then
      some { w with
        pool := releaseUid w.pool (BitVec.ofInt 16 p.unique)
        alive := w.alive.erase p }
    else none

/-- The numbers of the processes that may be executed. -/
def World.taken (w : World) : List ℤ := (w.alive.filter Process.accepted).map Process.unique

/-- The numbers in the cells from `ptr` on. -/
def Pool.free (pool : Pool) : List ℤ :=
  (List.range' pool.ptr (maxUnique - pool.ptr)).map fun i => ((pool.stack i).toNat : ℤ)

/-! ## The pool -/

variable {pool : Pool}

lemma allocUid_of_full (h : maxUnique ≤ pool.ptr) : allocUid pool = (-1, pool) := if_pos h

lemma allocUid_of_room (h : pool.ptr < maxUnique) :
    (allocUid pool).2.ptr = pool.ptr + 1 ∧
      pool.free = (allocUid pool).1 :: (allocUid pool).2.free := by
  have hcount : maxUnique - pool.ptr = maxUnique - (pool.ptr + 1) + 1 := by omega
  rw [allocUid, if_neg h.not_ge]
  refine ⟨rfl, ?_⟩
  rw [Pool.free, hcount, List.range'_succ, List.map_cons]
  rfl

lemma releaseUid_of_pos (h : 0 < pool.ptr) (hle : pool.ptr ≤ maxUnique) (uid : BitVec 16) :
    (releaseUid pool uid).ptr = pool.ptr - 1 ∧
      (releaseUid pool uid).free = (uid.toNat : ℤ) :: pool.free := by
  rw [releaseUid, if_neg h.ne']
  refine ⟨rfl, ?_⟩
  have hcount : maxUnique - (pool.ptr - 1) = maxUnique - pool.ptr + 1 := by omega
  have hptr : pool.ptr - 1 + 1 = pool.ptr := by omega
  rw [Pool.free, Pool.free, hcount, List.range'_succ, List.map_cons, hptr]
  dsimp only
  rw [Function.update_self]
  refine congrArg _ (List.map_congr_left fun i hi => ?_)
  have hne : i ≠ pool.ptr - 1 := by
    have hi' := (List.mem_range'_1.1 hi).1
    omega
  rw [Function.update_of_ne hne]

lemma free_lt {u : ℤ} (h : u ∈ pool.free) : 0 ≤ u ∧ u < 65536 := by
  obtain ⟨i, -, rfl⟩ := List.mem_map.1 h
  have hlt := (pool.stack i).isLt
  omega

lemma free_poolCreate_nodup : poolCreate.free.Nodup := by
  have hfree : poolCreate.free = (List.range' 0 maxUnique).map Int.ofNat := by
    rw [Pool.free, show maxUnique - poolCreate.ptr = maxUnique from Nat.sub_zero _]
    refine List.map_congr_left fun i hi => ?_
    have hlt : i < maxUnique := by simpa [poolCreate] using (List.mem_range'_1.1 hi).2
    rw [maxUnique_eq] at hlt
    have hmod : (BitVec.ofNat 16 i).toNat = i := Nat.mod_eq_of_lt hlt
    exact congrArg Int.ofNat hmod
  rw [hfree]
  exact (List.nodup_range' 1).map fun i j heq => Int.ofNat.inj heq

lemma length_free (pool : Pool) : pool.free.length = maxUnique - pool.ptr := by
  simp [Pool.free]

/-! ## Numbers that are taken and numbers that are free -/

/-- Every number is either free or held by one process. -/
structure Partitioned (w : World) : Prop where
  ptr_le : w.pool.ptr ≤ maxUnique
  count : w.taken.length = w.pool.ptr
  lt : ∀ u ∈ w.taken, u < 65536
  nodup : (w.taken ++ w.pool.free).Nodup

variable {w w' : World} {e : Event}

lemma taken_nonneg {u : ℤ} (h : u ∈ w.taken) : 0 ≤ u := by
  obtain ⟨p, hp, rfl⟩ := List.mem_map.1 h
  simpa [Process.accepted] using (List.mem_filter.1 hp).2

lemma partitioned_initial : Partitioned initial where
  ptr_le := Nat.zero_le _
  count := rfl
  lt := by simp [initial, World.taken]
  nodup := by
    have htaken : initial.taken = [] := rfl
    rw [htaken, List.nil_append]
    exact free_poolCreate_nodup

/-- A process is created with a free number when there is one. -/
lemma create_of_room (h : w.pool.ptr < maxUnique) (hw : next w .create = some w') :
    w'.pool.ptr = w.pool.ptr + 1 ∧ ∃ u, w'.taken = w.taken ++ [u] ∧
      w.pool.free = u :: w'.pool.free := by
  obtain ⟨hptr, hfree⟩ := allocUid_of_room h
  obtain rfl := Option.some.inj hw
  refine ⟨hptr, (allocUid w.pool).1, ?_, hfree⟩
  have hacc : Process.accepted ⟨w.created, (allocUid w.pool).1⟩ = true := by
    have hmem : (allocUid w.pool).1 ∈ w.pool.free := hfree ▸ List.mem_cons_self
    simpa [Process.accepted] using (free_lt hmem).1
  simp [World.taken, hacc]

lemma create_of_full (h : maxUnique ≤ w.pool.ptr) (hw : next w .create = some w') :
    w'.pool = w.pool ∧ w'.taken = w.taken := by
  obtain rfl := Option.some.inj hw
  have hacc : Process.accepted ⟨w.created, -1⟩ = false := rfl
  simp [World.taken, allocUid_of_full h, hacc]

lemma taken_perm {p : Process} (hp : p ∈ w.alive) (hacc : p.accepted) :
    w.taken.Perm (p.unique :: ((w.alive.erase p).filter Process.accepted).map Process.unique) := by
  have hperm := ((List.perm_cons_erase hp).filter Process.accepted).map Process.unique
  rwa [List.filter_cons_of_pos hacc, List.map_cons] at hperm

lemma taken_perm_of_not_accepted {p : Process} (hp : p ∈ w.alive) (hacc : ¬p.accepted) :
    w.taken.Perm (((w.alive.erase p).filter Process.accepted).map Process.unique) := by
  have hperm := ((List.perm_cons_erase hp).filter Process.accepted).map Process.unique
  rwa [List.filter_cons_of_neg hacc] at hperm

/-- A failed process is freed only when no process holds a number. -/
def Spares (w : World) : Event → Prop
  | .create => True
  | .free p => p.accepted = false → ∀ q ∈ w.alive, q.accepted = false

instance (w : World) : ∀ e, Decidable (Spares w e)
  | .create => inferInstanceAs (Decidable True)
  | .free _ => inferInstanceAs (Decidable (_ → ∀ q ∈ _, _))

namespace Partitioned

lemma congr (hw : Partitioned w) (hpool : w'.pool = w.pool) (htaken : w'.taken = w.taken) :
    Partitioned w' := by
  refine ⟨?_, ?_, ?_, ?_⟩
  · rw [hpool]
    exact hw.ptr_le
  · rw [hpool, htaken]
    exact hw.count
  · rw [htaken]
    exact hw.lt
  · rw [hpool, htaken]
    exact hw.nodup

lemma create (hw : Partitioned w) (hstep : next w .create = some w') : Partitioned w' := by
  by_cases hroom : w.pool.ptr < maxUnique
  · obtain ⟨hptr, u, htaken, hfree⟩ := create_of_room hroom hstep
    have hlt : ∀ v ∈ w.taken ++ [u], v < 65536 := by
      have hu : u ∈ w.pool.free := hfree ▸ List.mem_cons_self
      simpa [List.forall_mem_append, or_imp, forall_and] using ⟨hw.lt, (free_lt hu).2⟩
    refine ⟨by omega, ?_, htaken ▸ hlt, ?_⟩
    · rw [htaken, hptr, List.length_append, hw.count, List.length_singleton]
    · rw [htaken, List.append_assoc, List.singleton_append, ← hfree]
      exact hw.nodup
  · obtain ⟨hpool, htaken⟩ := create_of_full (not_lt.1 hroom) hstep
    exact hw.congr hpool htaken

/-- Where no number is taken, the release of a failed process has no effect. -/
lemma free_failed (hw : Partitioned w) {p : Process} (hp : p ∈ w.alive) (hacc : p.accepted = false)
    (hspares : ∀ q ∈ w.alive, q.accepted = false) :
    Partitioned { w with
      pool := releaseUid w.pool (BitVec.ofInt 16 p.unique)
      alive := w.alive.erase p } := by
  have hnone : w.taken = [] := by
    have hfilter : w.alive.filter Process.accepted = [] :=
      List.filter_eq_nil_iff.2 fun q hq => by simp [hspares q hq]
    rw [World.taken, hfilter, List.map_nil]
  have hptr : w.pool.ptr = 0 := by rw [← hw.count, hnone, List.length_nil]
  have hpool : releaseUid w.pool (BitVec.ofInt 16 p.unique) = w.pool := if_pos hptr
  have hperm := taken_perm_of_not_accepted hp (by simp [hacc])
  rw [hnone] at hperm
  exact hw.congr hpool ((List.nil_perm.1 hperm).trans hnone.symm)

/-- The number of a process becomes free. -/
lemma free_accepted (hw : Partitioned w) {p : Process} (hp : p ∈ w.alive)
    (hacc : p.accepted = true) :
    Partitioned { w with
      pool := releaseUid w.pool (BitVec.ofInt 16 p.unique)
      alive := w.alive.erase p } := by
  have hperm := taken_perm hp hacc
  have hmem : p.unique ∈ w.taken := hperm.symm.subset List.mem_cons_self
  have hpos : 0 < w.pool.ptr := by
    rw [← hw.count]
    exact List.length_pos_of_mem hmem
  obtain ⟨hptr, hfree⟩ := releaseUid_of_pos hpos hw.ptr_le (BitVec.ofInt 16 p.unique)
  have huid : ((BitVec.ofInt 16 p.unique).toNat : ℤ) = p.unique := by
    have hnn := taken_nonneg hmem
    have hlt := hw.lt _ hmem
    rw [BitVec.toNat_ofInt]
    omega
  rw [huid] at hfree
  refine ⟨?_, ?_, fun u hu => hw.lt u (hperm.symm.subset (List.mem_cons_of_mem _ hu)), ?_⟩
  · dsimp only
    have hle := hw.ptr_le
    omega
  · have hlen := hperm.length_eq
    rw [hw.count, List.length_cons] at hlen
    dsimp only
    rw [hptr, hlen]
    rfl
  · dsimp only
    rw [hfree]
    exact (List.perm_middle.trans (hperm.symm.append_right _)).nodup_iff.2 hw.nodup

end Partitioned

lemma partitioned_next (w : World) (e : Event) (w' : World) (hw : Partitioned w)
    (h : Guarded Spares (StepOf next) w e w') : Partitioned w' := by
  obtain ⟨hspares, hstep⟩ := h
  cases e with
  | create => exact hw.create hstep
  | free p =>
    obtain ⟨hp, hw'⟩ := Option.ite_none_right_eq_some.1 hstep
    obtain rfl := Option.some.inj hw'
    cases hacc : p.accepted with
    | false => exact hw.free_failed hp hacc (hspares hacc)
    | true => exact hw.free_accepted hp hacc

lemma partitioned_of_run {es : List Event}
    (hr : Run (Guarded Spares (StepOf next)) initial es w) : Partitioned w :=
  hr.invariant partitioned_next partitioned_initial

/-- A process without a number has the value that the pool returns when it is empty. -/
lemma unique_of_not_accepted {es : List Event} {p : Process}
    (hr : Run (StepOf next) initial es w) (hp : p ∈ w.alive) (hacc : p.accepted = false) :
    p.unique = -1 := by
  refine hr.invariant (I := fun w => ∀ p ∈ w.alive, p.accepted = false → p.unique = -1) ?_
    (by simp [initial]) p hp hacc
  intro w e w' hw hstep p hp hacc
  cases e with
  | create =>
    obtain rfl := Option.some.inj hstep
    rcases List.mem_append.1 hp with hp | hp
    · exact hw p hp hacc
    · obtain rfl := List.mem_singleton.1 hp
      by_cases hfull : maxUnique ≤ w.pool.ptr
      · exact congrArg Prod.fst (allocUid_of_full hfull)
      · have hmem : (allocUid w.pool).1 ∈ w.pool.free :=
          (allocUid_of_room (not_le.1 hfull)).2 ▸ List.mem_cons_self
        simp [Process.accepted, (free_lt hmem).1] at hacc
  | free q =>
    obtain ⟨-, hw'⟩ := Option.ite_none_right_eq_some.1 hstep
    obtain rfl := Option.some.inj hw'
    exact hw p (List.mem_of_mem_erase hp) hacc

/-! ## A failed process that is freed -/

/-- While there is room, `n` calls of `run_create_process` take the next `n` numbers. -/
lemma run_create (n : ℕ) (hn : w.pool.ptr + n ≤ maxUnique) :
    ∃ w', Run (Guarded Spares (StepOf next)) w (List.replicate n .create) w' ∧
      w'.pool.ptr = w.pool.ptr + n ∧ w'.taken ++ w'.pool.free = w.taken ++ w.pool.free := by
  induction n generalizing w with
  | zero => exact ⟨w, .nil, rfl, rfl⟩
  | succ n ih =>
    obtain ⟨v, hv⟩ : ∃ v, next w .create = some v := ⟨_, rfl⟩
    obtain ⟨hptr, u, htaken, hfree⟩ := create_of_room (by omega) hv
    obtain ⟨w', hr, hptr', hsame⟩ := ih (w := v) (by omega)
    refine ⟨w', hr.cons ⟨trivial, hv⟩, by omega, ?_⟩
    rw [hsame, htaken, hfree, List.append_assoc, List.singleton_append]

/-- No number is lost. -/
lemma Partitioned.mem (hw : Partitioned w) {u : ℤ} (hnn : 0 ≤ u) (hlt : u < 65536) :
    u ∈ w.taken ++ w.pool.free := by
  have hrange : ∀ {v : ℤ}, v ∈ (List.range' 0 maxUnique).map Int.ofNat ↔ 0 ≤ v ∧ v < 65536 := by
    intro v
    simp only [List.mem_map, List.mem_range'_1, maxUnique_eq, Int.ofNat_eq_natCast]
    constructor
    · rintro ⟨i, ⟨-, hi⟩, rfl⟩
      exact ⟨Int.natCast_nonneg i, by omega⟩
    · rintro ⟨hv, hv'⟩
      exact ⟨v.toNat, by omega, Int.toNat_of_nonneg hv⟩
  have hsub : w.taken ++ w.pool.free ⊆ (List.range' 0 maxUnique).map Int.ofNat := by
    intro v hv
    rcases List.mem_append.1 hv with hv | hv
    · exact hrange.2 ⟨taken_nonneg hv, hw.lt v hv⟩
    · exact hrange.2 (free_lt hv)
  have hlen : ((List.range' 0 maxUnique).map Int.ofNat).length ≤
      (w.taken ++ w.pool.free).length := by
    rw [List.length_map, List.length_range', List.length_append, hw.count, length_free]
    have hle := hw.ptr_le
    omega
  exact ((List.subperm_of_subset hw.nodup hsub).perm_of_length_le hlen).symm.subset
    (hrange.2 ⟨hnn, hlt⟩)

/-- When a failed process is freed while another one holds a number, the number 65535 comes to be
twice in the pool or among the processes, and is given out twice. -/
lemma exists_duplicate {p : Process} (hw : Partitioned w) (hp : p.unique = -1)
    (hheld : ∃ q ∈ w.alive, q.accepted) (hstep : next w (.free p) = some w') :
    ∃ fs w'', Run (StepOf next) w' fs w'' ∧ ¬w''.taken.Nodup := by
  obtain ⟨hmem, hw'⟩ := Option.ite_none_right_eq_some.1 hstep
  obtain rfl := Option.some.inj hw'
  have hpos : 0 < w.pool.ptr := by
    obtain ⟨q, hq, hacc⟩ := hheld
    rw [← hw.count]
    exact List.length_pos_of_mem ((taken_perm hq hacc).symm.subset List.mem_cons_self)
  obtain ⟨hptr, hfree⟩ := releaseUid_of_pos hpos hw.ptr_le (BitVec.ofInt 16 p.unique)
  have huid : ((BitVec.ofInt 16 p.unique).toNat : ℤ) = 65535 := by rw [hp]; decide
  rw [huid] at hfree
  have hperm := taken_perm_of_not_accepted hmem (by simp [Process.accepted, hp])
  -- The remaining numbers are taken, one after the other.
  have hle := hw.ptr_le
  obtain ⟨w'', hr, hptr', hsame⟩ := run_create (w := ⟨releaseUid w.pool (BitVec.ofInt 16 p.unique),
    w.created, w.alive.erase p⟩) (maxUnique - (w.pool.ptr - 1)) (by dsimp only; omega)
  refine ⟨_, w'', hr.of_guarded, fun hnodup => ?_⟩
  have hempty : w''.pool.free = [] := by
    refine List.length_eq_zero_iff.1 ?_
    rw [length_free]
    dsimp only at hptr'
    omega
  rw [hempty, List.append_nil] at hsame
  rw [hsame] at hnodup
  dsimp only at hnodup
  rw [hfree] at hnodup
  have hnot := (List.nodup_cons.1 (List.nodup_middle.1 hnodup)).1
  exact hnot ((hperm.append_right _).subset (hw.mem (by decide) (by decide)))

/-- In every run in which a failed process is freed only while no process holds a number, the
processes that may be executed have different numbers. After any other release of a failed process
there are calls that give out a number twice. -/
theorem uniques_distinct {es : List Event}
    (hr : Run (Guarded Spares (StepOf next)) initial es w) :
    w.taken.Nodup ∧ ∀ e w', next w e = some w' → ¬Spares w e →
      ∃ fs w'', Run (StepOf next) w' fs w'' ∧ ¬w''.taken.Nodup := by
  have hw := partitioned_of_run hr
  refine ⟨hw.nodup.of_append_left, fun e w' hstep hnot => ?_⟩
  cases e with
  | create => exact absurd trivial hnot
  | free p =>
    obtain ⟨hacc, q, hq, hqacc⟩ : p.accepted = false ∧ ∃ q ∈ w.alive, q.accepted := by
      simpa [Spares] using hnot
    obtain ⟨hmem, -⟩ := Option.ite_none_right_eq_some.1 hstep
    exact exists_duplicate hw (unique_of_not_accepted hr.of_guarded hmem hacc) ⟨q, hq, hqacc⟩ hstep

/-- Two processes, the first of which is freed again. -/
def twoProcesses : List Event := [.create, .create, .free ⟨0, 0⟩, .create]

lemma twoProcesses_isSome : (twoProcesses.foldlM (restrict Spares next) initial).isSome := by
  decide +kernel

theorem uniques_distinct_twoProcesses :
    ((twoProcesses.foldlM (restrict Spares next) initial).get twoProcesses_isSome).taken.Nodup :=
  (uniques_distinct ((Run.get_foldlM _ _ twoProcesses_isSome).mono
    fun _ _ _ h => stepOf_restrict.1 h)).1

/-- All numbers are taken, and one more process is created and freed. -/
theorem uniques_repeat : ¬∀ (es : List Event) (w : World), Run (StepOf next) initial es w →
    w.taken.Nodup := by
  intro h
  obtain ⟨w, hr, hptr, -⟩ := run_create (w := initial) maxUnique (by simp [initial, poolCreate])
  have hfull : w.pool.ptr = maxUnique := by simpa [initial, poolCreate] using hptr
  let p : Process := ⟨w.created, -1⟩
  have hcreate : next w .create = some ⟨w.pool, w.created + 1, w.alive ++ [p]⟩ := by
    simp [next, allocUid_of_full hfull.ge, p]
  have hstep : Guarded Spares (StepOf next) w .create
      ⟨w.pool, w.created + 1, w.alive ++ [p]⟩ := ⟨trivial, hcreate⟩
  have hr' := hr.snoc hstep
  have hv := partitioned_of_run hr'
  have hheld : ∃ q ∈ w.alive ++ [p], q.accepted := by
    have htaken : World.taken ⟨w.pool, w.created + 1, w.alive ++ [p]⟩ ≠ [] := by
      refine List.ne_nil_of_length_pos ?_
      rw [hv.count]
      dsimp only
      rw [hfull, maxUnique_eq]
      decide
    obtain ⟨u, hu⟩ := List.exists_mem_of_ne_nil _ htaken
    obtain ⟨q, hq, -⟩ := List.mem_map.1 hu
    exact ⟨q, (List.mem_filter.1 hq).1, (List.mem_filter.1 hq).2⟩
  have hp : p ∈ w.alive ++ [p] := List.mem_append_right _ (List.mem_singleton_self p)
  have hfree : next ⟨w.pool, w.created + 1, w.alive ++ [p]⟩ (.free p) = some _ := if_pos hp
  obtain ⟨fs, w'', hfs, hdup⟩ := exists_duplicate hv rfl hheld hfree
  exact hdup (h _ _ ((hr'.of_guarded.snoc hfree).append hfs))

end WebTester.Librun.Unique
