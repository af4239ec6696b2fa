import Mathlib.Data.List.Perm.Subperm
import WebTester.Conservation

/-!
# Sizes of the lists and identities of their tasks

`need` and `wt_belts_full` bound the two lists. No two tasks in them have the same
solution and module: a received pair is compared with both lists before it is
accepted, and the moves between them keep the multiset of identities.
-/
namespace WebTester.Belts
open Transition

namespace Server

/-- Solution and module of every task of the queue and the belts. -/
def pairs (s : Server) : List (ℤ × ℤ) := (s.queue ++ s.belts).map fun p => (s.mem p).key

structure Bounded (cfg : Config) (s : Server) : Prop where
  belts : s.belts.length ≤ cfg.beltsSize
  queue : s.queue.length ≤ cfg.queueSize
  distinct : s.pairs.Nodup

lemma bounded_initial (cfg : Config) : initial.Bounded cfg where
  belts := by simpa [initial] using cfg.beltsSize_pos.le
  queue := by simpa [initial] using cfg.queueSize_pos.le
  distinct := by simp [initial, pairs]

/-- Tasks that stay in the lists, in any order, keep their pairs distinct. -/
lemma nodup_pairs_of_subperm {s t : Server} (hs : s.pairs.Nodup)
    (hsub : (t.queue ++ t.belts).Subperm (s.queue ++ s.belts))
    (hkey : ∀ p ∈ s.queue ++ s.belts, (t.mem p).key = (s.mem p).key) : t.pairs.Nodup := by
  obtain ⟨l, hperm, hl⟩ := hsub
  have hmap : l.map (fun p => (t.mem p).key) = l.map (fun p => (s.mem p).key) :=
    List.map_congr_left fun p hp => hkey p (hl.subset hp)
  refine (hperm.map _).nodup_iff.1 ?_
  rw [hmap]
  exact hs.sublist (hl.map _)

lemma nodup_pairs_acceptTask {s : Server} {k : ℤ × ℤ} (hs : s.pairs.Nodup)
    (hfresh : ∀ p ∈ s.queue ++ s.belts, p < s.spawned)
    (hnew : ∀ p ∈ s.queue ++ s.belts, (s.mem p).key ≠ k) : (s.acceptTask k).pairs.Nodup := by
  have hmap : (s.queue ++ s.belts).map (fun p => ((s.acceptTask k).mem p).key) = s.pairs :=
    List.map_congr_left fun p hp => by simp [acceptTask, (hfresh p hp).ne]
  have hkey : ((s.acceptTask k).mem s.spawned).key = k := by
    simp [acceptTask, Task.key, Task.spawnNewTask]
  have hperm : ((s.acceptTask k).queue ++ (s.acceptTask k).belts).Perm
      (s.spawned :: (s.queue ++ s.belts)) := by
    simp [acceptTask]
  refine ((hperm.map _).nodup_iff).2 ?_
  rw [List.map_cons, hmap, hkey, List.nodup_cons]
  refine ⟨?_, hs⟩
  simp only [pairs, List.mem_map, not_exists, not_and]
  exact hnew

lemma Filled.subperm {s t : Server} {p : ℕ} (h : Filled s p t) (hp : p ∈ s.queue) :
    (t.queue ++ t.belts).Subperm (s.queue ++ s.belts) := by
  have herase : (s.queue.erase p).Sublist s.queue := List.erase_sublist
  have hperm : (p :: s.queue.erase p).Perm s.queue := (List.perm_cons_erase hp).symm
  cases h with
  | duplicate => exact (herase.append_right _).subperm
  | restored => exact (herase.append_right _).subperm
  | kept => exact (hperm.append_right _).subperm
  | sent =>
    have hmove : (s.queue.erase p ++ (s.belts ++ [p])).Perm (p :: s.queue.erase p ++ s.belts) := by
      rw [← List.append_assoc]
      exact List.perm_append_singleton _ _
    exact (hmove.trans (hperm.append_right _)).subperm

lemma Overviewed.sublist_append {s t : Server} {p : ℕ} (h : Overviewed s p t) :
    (t.queue ++ t.belts).Sublist (s.queue ++ s.belts) := by
  have herase : (s.queue ++ s.belts.erase p).Sublist (s.queue ++ s.belts) :=
    List.erase_sublist.append_left _
  cases h with
  | idle => exact List.Sublist.refl _
  | chained => exact List.Sublist.refl _
  | waiting => exact List.Sublist.refl _
  | _ => exact herase

lemma Filled.length_queue {s t : Server} {p : ℕ} (h : Filled s p t) (hp : p ∈ s.queue) :
    t.queue.length ≤ s.queue.length := by
  have hlen := List.length_erase_of_mem hp
  have hpos := List.length_pos_of_mem hp
  cases h <;> simp only [log, setTask, List.length_cons] <;> omega

lemma Filled.length_belts {s t : Server} {p : ℕ} (h : Filled s p t) :
    t.belts.length ≤ s.belts.length + 1 := by
  cases h <;> simp [log, setTask]

lemma Overviewed.lengths {s t : Server} {p : ℕ} (h : Overviewed s p t) :
    t.queue = s.queue ∧ t.belts.length ≤ s.belts.length := by
  cases h <;> simp [log, setTask, List.length_erase_le]

/-- A move that leaves both lists alone. -/
lemma Bounded.of_lists_eq {cfg : Config} {s t : Server} (hs : s.Bounded cfg)
    (hq : t.queue = s.queue) (hb : t.belts = s.belts)
    (hkey : ∀ p ∈ s.queue ++ s.belts, (t.mem p).key = (s.mem p).key) : t.Bounded cfg where
  belts := hb ▸ hs.belts
  queue := hq ▸ hs.queue
  distinct := nodup_pairs_of_subperm hs.distinct (by rw [hq, hb]) hkey

lemma Bounded.move {cfg : Config} {s t : Server} {m : Move} (hc : s.Conserved)
    (hs : s.Bounded cfg) (h : Moves cfg s m t) : t.Bounded cfg := by
  have hlt : ∀ p ∈ s.queue ++ s.belts, p < s.spawned := fun p hp =>
    (List.mem_append.1 hp).elim (fun h => (hc.of_mem_queue h).1) fun h => (hc.of_mem_belts h).1
  have hkey : ∀ p ∈ s.queue ++ s.belts, (t.mem p).key = (s.mem p).key := fun p hp =>
    h.key_eq (hlt p hp)
  cases h with
  | accept hroom hq hb =>
    refine ⟨hs.belts, ?_, nodup_pairs_acceptTask hs.distinct hlt fun p hp =>
      (List.mem_append.1 hp).elim (hq p) (hb p)⟩
    simp only [acceptTask, List.length_append, List.length_singleton]
    omega
  | fill hp hroom hf =>
    have hq := hf.length_queue hp
    have hb := hf.length_belts
    have := hs.queue
    exact ⟨by omega, by omega, nodup_pairs_of_subperm hs.distinct (hf.subperm hp) hkey⟩
  | overview hp ho =>
    obtain ⟨hq, hb⟩ := ho.lengths
    have := hs.belts
    exact ⟨by omega, hq ▸ hs.queue,
      nodup_pairs_of_subperm hs.distinct ho.sublist_append.subperm hkey⟩
  | _ => exact hs.of_lists_eq rfl rfl hkey

end Server

/-- The belts and the queue keep to their sizes and hold pairwise distinct
pairs of solution and module, in every state of every run. -/
theorem bounded_of_run {cfg : Config} {es : List Event} {s : Server}
    (hr : Run (Step cfg) initial es s) : s.Bounded cfg :=
  (invariant_of_moves (I := fun s => s.Conserved ∧ s.Bounded cfg)
    (fun _ _ _ hs h => ⟨hs.1.move h, hs.2.move hs.1 h⟩) hr
    ⟨conserved_initial, Server.bounded_initial cfg⟩).2

end WebTester.Belts
