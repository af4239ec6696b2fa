import Mathlib.Data.List.Basic
import Mathlib.Data.List.Infix
import Mathlib.Data.List.Nodup

/-!
# Trees of files

Files are named by their paths from the root. A path is walked from the root, component by
component; a symbolic link replaces what has been walked by its target, and a bounded number of
links is followed. A target is an absolute path: a relative one stands for the path that it gives
together with the directory of the link.
-/
namespace WebTester.FileTree

inductive Kind (α : Type*)
  | dir
  | file
  | socket
  | link (target : List α)
  deriving DecidableEq, Repr

variable {α : Type*} [DecidableEq α] (kind : List α → Kind α)

/-- The rest of a path is walked from a directory; `follow` walks the target of a link. -/
def walk (files : List (List α)) (follow : List α → Option (List α)) :
    List α → List α → Option (List α)
  | cur, [] => some cur
  | cur, n :: rest =>
    if cur ++ [n] ∈ files then
      match kind (cur ++ [n]) with
      | .dir => walk files follow (cur ++ [n]) rest
      | .link target => follow (target ++ rest)
      | .file => if rest.isEmpty then some (cur ++ [n]) else none
      | .socket => if rest.isEmpty then some (cur ++ [n]) else none
    else none

/-- The file that a path leads to when up to `k` links are followed. -/
def namei (files : List (List α)) : ℕ → List α → Option (List α)
  | 0, path => walk kind files (fun _ => none) [] path
  | k + 1, path => walk kind files (namei files k) [] path

/-- The names in a directory. -/
def children (files : List (List α)) (p : List α) : List α :=
  files.filterMap fun q => if q.dropLast = p then q.getLast? else none

/-- Every file but the root is in a directory. -/
structure Tree (files : List (List α)) : Prop where
  nodup : files.Nodup
  root : [] ∈ files
  parent : ∀ p n, p ++ [n] ∈ files → p ∈ files ∧ kind p = .dir

variable {kind} {files files' : List (List α)}

lemma mem_child {p q : List α} {n : α} :
    n ∈ (if q.dropLast = p then q.getLast? else none) ↔ q = p ++ [n] := by
  rcases List.eq_nil_or_concat' q with rfl | ⟨r, m, rfl⟩
  · simp
  · simp

lemma mem_children {p : List α} {n : α} : n ∈ children files p ↔ p ++ [n] ∈ files := by
  rw [children, List.mem_filterMap]
  constructor
  · rintro ⟨q, hq, h⟩
    exact mem_child.1 h ▸ hq
  · intro h
    exact ⟨p ++ [n], h, mem_child.2 rfl⟩

namespace Tree

omit [DecidableEq α] in
lemma of_forall (hnodup : files.Nodup) (hroot : [] ∈ files)
    (h : ∀ q ∈ files, q ≠ [] → q.dropLast ∈ files ∧ kind q.dropLast = .dir) :
    Tree kind files where
  nodup := hnodup
  root := hroot
  parent := by
    intro p n hp
    simpa using h _ hp (by simp)

omit [DecidableEq α] in
lemma mem_of_append (h : Tree kind files) {p q : List α} (hpq : p ++ q ∈ files) : p ∈ files := by
  induction q using List.reverseRecOn with
  | nil => simpa using hpq
  | append_singleton q n ih =>
    rw [← List.append_assoc] at hpq
    exact ih (h.parent _ n hpq).1

omit [DecidableEq α] in
lemma dir_of_append (h : Tree kind files) {p q : List α} {n : α} (hpq : p ++ n :: q ∈ files) :
    kind p = .dir := by
  have hmem : p ++ [n] ∈ files := by
    have hpq' : p ++ [n] ++ q ∈ files := by simpa using hpq
    exact h.mem_of_append hpq'
  exact (h.parent p n hmem).2

lemma children_nodup (h : Tree kind files) (p : List α) : (children files p).Nodup := by
  refine List.Nodup.filterMap ?_ h.nodup
  intro q r n hq hr
  rw [mem_child.1 hq, mem_child.1 hr]

/-- A file without files in it can be removed. -/
lemma filter_ne (h : Tree kind files) {q : List α} (hq : q ≠ [])
    (hleaf : ∀ n, q ++ [n] ∉ files) : Tree kind (files.filter (· ≠ q)) where
  nodup := h.nodup.filter _
  root := List.mem_filter.2 ⟨h.root, by simpa using hq.symm⟩
  parent := by
    intro p n hp
    obtain ⟨hmem, -⟩ := List.mem_filter.1 hp
    obtain ⟨hpar, hdir⟩ := h.parent p n hmem
    have hne : p ≠ q := fun heq => hleaf n (heq ▸ hmem)
    exact ⟨List.mem_filter.2 ⟨hpar, by simpa using hne⟩, hdir⟩

end Tree

/-! ## Walking -/

lemma mem_of_walk {follow : List α → Option (List α)} {cur rest r : List α} {n : α}
    (h : walk kind files follow cur (n :: rest) = some r) : cur ++ [n] ∈ files := by
  by_contra hmem
  rw [walk, if_neg hmem] at h
  cases h

/-- More files do not change where a path leads. -/
lemma walk_mono (hsub : files ⊆ files') {follow follow' : List α → Option (List α)}
    (hfollow : ∀ p r, follow p = some r → follow' p = some r) {cur path r : List α}
    (h : walk kind files follow cur path = some r) :
    walk kind files' follow' cur path = some r := by
  induction path generalizing cur with
  | nil => exact h
  | cons n rest ih =>
    have hmem : cur ++ [n] ∈ files := mem_of_walk h
    rw [walk, if_pos hmem] at h
    rw [walk, if_pos (hsub hmem)]
    cases hkind : kind (cur ++ [n]) with
    | dir =>
      rw [hkind] at h
      exact ih h
    | link target =>
      rw [hkind] at h
      exact hfollow _ _ h
    | file | socket =>
      rw [hkind] at h
      exact h

lemma namei_mono (hsub : files ⊆ files') {k : ℕ} {path r : List α}
    (h : namei kind files k path = some r) : namei kind files' k path = some r := by
  induction k generalizing path r with
  | zero => exact walk_mono hsub (by simp) h
  | succ k ih => exact walk_mono hsub (fun _ _ => ih) h

/-- Inside the tree no link is met. -/
lemma walk_of_mem (ht : Tree kind files) (follow : List α → Option (List α)) {cur path : List α}
    (hmem : cur ++ path ∈ files) (hlink : ∀ target, kind (cur ++ path) ≠ .link target) :
    walk kind files follow cur path = some (cur ++ path) := by
  induction path generalizing cur with
  | nil => simp [walk]
  | cons n rest ih =>
    have hassoc : cur ++ n :: rest = cur ++ [n] ++ rest := by simp
    rw [hassoc] at hmem hlink ⊢
    rw [walk, if_pos (ht.mem_of_append hmem)]
    rcases rest with _ | ⟨m, rest⟩
    · rw [List.append_nil] at hlink ⊢
      cases hkind : kind (cur ++ [n]) with
      | dir => simp [walk]
      | link target => exact absurd hkind (hlink target)
      | file | socket => simp
    · rw [ht.dir_of_append hmem]
      exact ih hmem hlink

lemma walk_of_link (ht : Tree kind files) (follow : List α → Option (List α))
    {cur path target : List α} (hmem : cur ++ path ∈ files) (hdir : kind cur = .dir)
    (hlink : kind (cur ++ path) = .link target) :
    walk kind files follow cur path = follow target := by
  induction path generalizing cur with
  | nil =>
    rw [List.append_nil, hdir] at hlink
    cases hlink
  | cons n rest ih =>
    have hassoc : cur ++ n :: rest = cur ++ [n] ++ rest := by simp
    rw [hassoc] at hmem hlink
    rw [walk, if_pos (ht.mem_of_append hmem)]
    rcases rest with _ | ⟨m, rest⟩
    · rw [List.append_nil] at hlink
      simp [hlink]
    · have hn : kind (cur ++ [n]) = .dir := ht.dir_of_append hmem
      rw [hn]
      exact ih hmem hn hlink

/-- The links that can still be followed lead to the file of a path. -/
def upTo (kind : List α → Kind α) (files : List (List α)) : ℕ → List α → Option (List α)
  | 0, _ => none
  | k + 1, path => namei kind files k path

lemma namei_eq (k : ℕ) (path : List α) :
    namei kind files k path = walk kind files (upTo kind files k) [] path := by
  cases k with
  | zero => rfl
  | succ k => rfl

lemma walk_append {follow : List α → Option (List α)} {c cur xs : List α} (hdir : kind c = .dir)
    (h : walk kind files follow cur xs = some c) :
    (∀ ys, walk kind files follow cur (xs ++ ys) = walk kind files follow c ys) ∨
    ∃ p, follow p = some c ∧ ∀ ys, walk kind files follow cur (xs ++ ys) = follow (p ++ ys) := by
  induction xs generalizing cur with
  | nil =>
    obtain rfl : cur = c := Option.some.inj h
    exact .inl fun ys => rfl
  | cons n xs ih =>
    have hn : cur ++ [n] ∈ files := mem_of_walk h
    rw [walk, if_pos hn] at h
    simp only [List.cons_append, walk, if_pos hn]
    cases hkind : kind (cur ++ [n]) with
    | dir =>
      rw [hkind] at h
      exact ih h
    | link target =>
      rw [hkind] at h
      exact .inr ⟨target ++ xs, h, fun ys => by rw [List.append_assoc]⟩
    | file | socket =>
      rw [hkind] at h
      split_ifs at h
      obtain rfl : cur ++ [n] = c := Option.some.inj h
      rw [hkind] at hdir
      cases hdir

/-- From the directory that a path leads to, the rest of a longer path is walked. -/
lemma namei_append_eq {k : ℕ} {xs c : List α} (hdir : kind c = .dir)
    (h : namei kind files k xs = some c) :
    ∃ j, ∀ ys, namei kind files k (xs ++ ys) = walk kind files (upTo kind files j) c ys := by
  induction k generalizing xs with
  | zero =>
    rcases walk_append hdir h with heq | ⟨p, hp, -⟩
    · exact ⟨0, heq⟩
    · cases hp
  | succ k ih =>
    rcases walk_append hdir h with heq | ⟨p, hp, heq⟩
    · exact ⟨k + 1, heq⟩
    · obtain ⟨j, hj⟩ := ih hp
      exact ⟨j, fun ys => (heq ys).trans (hj ys)⟩

lemma namei_append (ht : Tree kind files) {k : ℕ} {xs c ys : List α} (hdir : kind c = .dir)
    (hmem : c ++ ys ∈ files) (hlink : ∀ target, kind (c ++ ys) ≠ .link target)
    (h : namei kind files k xs = some c) : namei kind files k (xs ++ ys) = some (c ++ ys) := by
  obtain ⟨j, hj⟩ := namei_append_eq hdir h
  rw [hj]
  exact walk_of_mem ht _ hmem hlink

/-- A path to a link leads where the link's target leads. -/
lemma namei_link (ht : Tree kind files) {k : ℕ} {xs c ys target r : List α} (hdir : kind c = .dir)
    (hmem : c ++ ys ∈ files) (hlink : kind (c ++ ys) = .link target)
    (h : namei kind files k xs = some c) (hr : namei kind files k (xs ++ ys) = some r) :
    ∃ j, namei kind files j target = some r := by
  obtain ⟨j, hj⟩ := namei_append_eq hdir h
  rw [hj, walk_of_link ht _ hmem hdir hlink] at hr
  cases j with
  | zero => cases hr
  | succ j => exact ⟨j, hr⟩

lemma walk_append_cons {follow : List α → Option (List α)} {n : α} {ys r : List α}
    (hfollow : ∀ p, follow (p ++ n :: ys) = some r → ∃ c, follow p = some c ∧ c ++ [n] ∈ files)
    {cur xs : List α} (h : walk kind files follow cur (xs ++ n :: ys) = some r) :
    ∃ c, walk kind files follow cur xs = some c ∧ c ++ [n] ∈ files := by
  induction xs generalizing cur with
  | nil => exact ⟨cur, rfl, mem_of_walk h⟩
  | cons m xs ih =>
    have hm : cur ++ [m] ∈ files := mem_of_walk h
    rw [List.cons_append, walk, if_pos hm] at h
    rw [walk, if_pos hm]
    cases hkind : kind (cur ++ [m]) with
    | dir =>
      rw [hkind] at h
      exact ih h
    | link target =>
      rw [hkind] at h
      refine hfollow (target ++ xs) ?_
      rw [List.append_assoc]
      exact h
    | file | socket =>
      rw [hkind] at h
      simp at h

/-- The beginning of a path leads to a directory. -/
lemma namei_append_cons {k : ℕ} {xs ys r : List α} {n : α}
    (h : namei kind files k (xs ++ n :: ys) = some r) :
    ∃ c, namei kind files k xs = some c ∧ c ++ [n] ∈ files := by
  induction k generalizing xs with
  | zero => exact walk_append_cons (by simp) h
  | succ k ih => exact walk_append_cons (fun _ hp => ih hp) h

/-- More links do not change where a path leads. -/
lemma namei_le {j k : ℕ} (hjk : j ≤ k) {path r : List α} (h : namei kind files j path = some r) :
    namei kind files k path = some r := by
  induction k generalizing j path r with
  | zero =>
    obtain rfl : j = 0 := by omega
    exact h
  | succ k ih =>
    cases j with
    | zero => exact walk_mono (List.Subset.refl files) (by simp) h
    | succ j => exact walk_mono (List.Subset.refl files) (fun _ _ => ih (by omega)) h

lemma namei_unique {j k : ℕ} {path r r' : List α} (h : namei kind files j path = some r)
    (h' : namei kind files k path = some r') : r = r' := by
  have hj := namei_le (le_max_left j k) h
  have hk := namei_le (le_max_right j k) h'
  exact Option.some.inj (hj.symm.trans hk)

/-! ## A part of the tree that is not left again -/

section Closed

variable {d : List α}
  (hclosed : ∀ r target rest c j, d ++ r ∈ files → kind (d ++ r) = .link target →
    kind c = .dir → namei kind files j (target ++ rest) ≠ some c)
include hclosed

lemma walk_closed {k : ℕ} {cur path c : List α} (hcur : d <+: cur) (hdir : kind c = .dir)
    (h : walk kind files (upTo kind files k) cur path = some c) : d <+: c := by
  induction path generalizing cur with
  | nil =>
    obtain rfl : cur = c := Option.some.inj h
    exact hcur
  | cons n rest ih =>
    have hn : cur ++ [n] ∈ files := mem_of_walk h
    have hpre : d <+: cur ++ [n] := hcur.trans (List.prefix_append cur [n])
    rw [walk, if_pos hn] at h
    cases hkind : kind (cur ++ [n]) with
    | dir =>
      rw [hkind] at h
      exact ih hpre h
    | link target =>
      rw [hkind] at h
      obtain ⟨r, hr⟩ := hpre
      rw [← hr] at hn hkind
      cases k with
      | zero => cases h
      | succ k => exact absurd h (hclosed r target rest c k hn hkind hdir)
    | file | socket =>
      rw [hkind] at h
      split_ifs at h
      exact (Option.some.inj h) ▸ hpre

lemma walk_outside (hd : kind d = .dir) {k : ℕ} {c : List α} (hc : ¬d <+: c)
    (hdir : kind c = .dir)
    (hfollow : ∀ p, upTo kind files k p = some c →
      upTo kind (files.filter fun p => ¬d <+: p) k p = some c) {cur path : List α}
    (hcur : ¬d <+: cur) (h : walk kind files (upTo kind files k) cur path = some c) :
    walk kind (files.filter fun p => ¬d <+: p)
      (upTo kind (files.filter fun p => ¬d <+: p) k) cur path = some c := by
  induction path generalizing cur with
  | nil => exact h
  | cons n rest ih =>
    have hn : cur ++ [n] ∈ files := mem_of_walk h
    rw [walk, if_pos hn] at h
    have hpre : ¬d <+: cur ++ [n] := by
      rw [List.prefix_concat_iff]
      rintro (rfl | hpre)
      · rw [hd] at h
        exact hc (walk_closed hclosed (List.prefix_refl _) hdir h)
      · exact hcur hpre
    have hmem : cur ++ [n] ∈ files.filter fun p => ¬d <+: p :=
      List.mem_filter.2 ⟨hn, by simpa using hpre⟩
    rw [walk, if_pos hmem]
    cases hkind : kind (cur ++ [n]) with
    | dir =>
      rw [hkind] at h
      exact ih hpre h
    | link target =>
      rw [hkind] at h
      exact hfollow _ h
    | file | socket =>
      rw [hkind] at h
      exact h

/-- A way that ends outside does not need the files inside. -/
lemma namei_outside (hd : kind d = .dir) (hroot : d ≠ []) {k : ℕ} {path c : List α}
    (hc : ¬d <+: c) (hdir : kind c = .dir) (h : namei kind files k path = some c) :
    namei kind (files.filter fun p => ¬d <+: p) k path = some c := by
  have hnil : ¬d <+: [] := by simpa using hroot
  induction k generalizing path with
  | zero =>
    rw [namei_eq] at h ⊢
    exact walk_outside hclosed hd hc hdir (by simp [upTo]) hnil h
  | succ k ih =>
    rw [namei_eq] at h ⊢
    exact walk_outside hclosed hd (k := k + 1) hc hdir (fun _ hp => ih hp) hnil h

end Closed

end WebTester.FileTree
