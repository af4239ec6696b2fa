import Mathlib.Algebra.Ring.Nat
import Mathlib.Data.Vector.Basic

/-!
# Sequences taken in blocks

`absorb` takes whole blocks from the front of a sequence, in order, and gives the state after them
with what is left over. A sequence may come in parts: what was left over is put before the next
part. `splice` is the copying of a run of elements to a place in an array.
-/
namespace BlockStream

variable {α σ : Type*} {n : ℕ}

/-- The first `n` elements. -/
def block (n : ℕ) (l : List α) (h : n ≤ l.length) : Vector α n :=
  ⟨(l.take n).toArray, by simpa using h⟩

/-- The whole blocks at the front, one after the other, and the rest. A block is not empty. -/
def absorb [NeZero n] (f : σ → Vector α n → σ) (s : σ) (l : List α) : σ × List α :=
  if h : n ≤ l.length then absorb f (f s (block n l h)) (l.drop n) else (s, l)
termination_by l.length
decreasing_by
  have hpos := Nat.pos_of_neZero n
  rw [List.length_drop]
  omega

/-- `src` copied to the places from `start` on, as far as the array goes. -/
def splice (dst : Vector α n) (start : ℕ) (src : List α) : Vector α n :=
  dst.mapIdx fun i a => if start ≤ i then (src[i - start]?).getD a else a

lemma block_append {l m : List α} (h : n ≤ l.length) (h' : n ≤ (l ++ m).length) :
    block n (l ++ m) h' = block n l h := by
  apply Vector.toArray_inj.1
  show ((l ++ m).take n).toArray = (l.take n).toArray
  rw [List.take_append_of_le_length h]

section Absorb

variable [NeZero n] {f : σ → Vector α n → σ} {s : σ} {l m : List α}

lemma absorb_of_lt (h : l.length < n) : absorb f s l = (s, l) := by
  rw [absorb, dif_neg (Nat.not_le.2 h)]

lemma absorb_of_le (h : n ≤ l.length) :
    absorb f s l = absorb f (f s (block n l h)) (l.drop n) := by
  rw [absorb, dif_pos h]

/-- The rest is shorter than a block. -/
lemma length_absorb (f : σ → Vector α n → σ) (s : σ) (l : List α) :
    (absorb f s l).2.length = l.length % n := by
  fun_induction absorb f s l with
  | case1 s l h ih => rw [ih, List.length_drop, ← Nat.mod_eq_sub_mod h]
  | case2 s l h => exact (Nat.mod_eq_of_lt (Nat.not_le.1 h)).symm

/-- A sequence may be cut anywhere: what was left over goes before the second part. -/
lemma absorb_append (f : σ → Vector α n → σ) (s : σ) (l m : List α) :
    absorb f s (l ++ m) = absorb f (absorb f s l).1 ((absorb f s l).2 ++ m) := by
  fun_induction absorb f s l with
  | case1 s l h ih =>
    have hle : n ≤ (l ++ m).length := by rw [List.length_append]; omega
    rw [absorb_of_le hle, block_append h, List.drop_append_of_le_length h, ih]
  | case2 s l h => rfl

end Absorb

/-- What stands before the end of the copy. -/
lemma toList_splice (dst : Vector α n) {start : ℕ} {src : List α}
    (h : start + src.length ≤ n) :
    (splice dst start src).toList.take (start + src.length) = dst.toList.take start ++ src := by
  apply List.ext_getElem
  · simp only [List.length_take, Vector.length_toList, List.length_append]
    omega
  · intro i hi hi'
    have hlt : i < start + src.length := by
      rw [List.length_take] at hi
      omega
    have hn : i < n := by omega
    simp only [List.getElem_take, Vector.getElem_toList, splice, Vector.getElem_mapIdx]
    by_cases hstart : start ≤ i
    · rw [if_pos hstart, List.getElem?_eq_getElem (by omega), Option.getD_some,
        List.getElem_append_right (by simpa using Or.inl hstart)]
      simp only [List.length_take, Vector.length_toList]
      congr 1
      omega
    · rw [if_neg hstart, List.getElem_append_left (by simp; omega)]
      simp

/-- What is left over from before waits at the front of an array: the array is filled up, and is
the first block. -/
lemma absorb_splice [NeZero n] {f : σ → Vector α n → σ} {s : σ} {dst : Vector α n} {l m : List α}
    (hl : dst.toList.take l.length = l) (hn : l.length ≤ n) (h : n - l.length ≤ m.length) :
    absorb f s (l ++ m) =
      absorb f (f s (splice dst l.length (m.take (n - l.length)))) (m.drop (n - l.length)) := by
  have hle : n ≤ (l ++ m).length := by rw [List.length_append]; omega
  have hsrc : l.length + (m.take (n - l.length)).length = n := by rw [List.length_take]; omega
  have hblock : splice dst l.length (m.take (n - l.length)) = block n (l ++ m) hle := by
    apply Vector.toList_inj.1
    have htake := toList_splice dst hsrc.le
    rw [hsrc, hl, List.take_of_length_le (by simp)] at htake
    rw [htake]
    show _ = (l ++ m).take n
    rw [List.take_append, List.take_of_length_le hn]
  rw [absorb_of_le hle, hblock, List.drop_append, List.drop_of_length_le hn, List.nil_append]

end BlockStream
