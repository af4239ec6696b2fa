import WebTester.CopyDir
import WebTester.Listing

/-!
# Files for chroot

Where solutions are tested after `chroot`, `copy_chroot_data` copies what they need into the testing
directory and `remove_chroot_data` removes it after the last test: `unlinkdir` of the names that are
in the directory `chroot`, which are listed once and then kept. What is no directory there stays, as
`unlinkdir` of it does nothing.
-/
namespace WebTester.FileTree

variable {α : Type*} [DecidableEq α] {kind : List α → Kind α} {files files' : List (List α)}

/-- Where a path leads depends on the files that are met. -/
lemma walk_congr {kind' : List α → Kind α} (hsame : ∀ p ∈ files, p ∈ files' ∧ kind' p = kind p)
    {follow follow' : List α → Option (List α)}
    (hfollow : ∀ p r, follow p = some r → follow' p = some r) {cur path r : List α}
    (h : walk kind files follow cur path = some r) :
    walk kind' files' follow' cur path = some r := by
  induction path generalizing cur with
  | nil => exact h
  | cons n rest ih =>
    have hmem : cur ++ [n] ∈ files := mem_of_walk h
    obtain ⟨hmem', hkind'⟩ := hsame _ hmem
    rw [walk, if_pos hmem] at h
    rw [walk, if_pos hmem', hkind']
    cases hkind : kind (cur ++ [n]) with
    | dir =>
      rw [hkind] at h
      exact ih h
    | link target =>
      rw [hkind] at h
      exact hfollow _ _ h
    | file | socket =>
      rw [hkind] at h
      exact h

lemma namei_congr {kind' : List α → Kind α} (hsame : ∀ p ∈ files, p ∈ files' ∧ kind' p = kind p)
    {k : ℕ} {path r : List α} (h : namei kind files k path = some r) :
    namei kind' files' k path = some r := by
  induction k generalizing path r with
  | zero => exact walk_congr hsame (by simp) h
  | succ k ih => exact walk_congr hsame (fun _ _ => ih) h

omit [DecidableEq α] in
/-- Files whose parents are chosen with them are a tree. -/
lemma Tree.filter_closed (ht : Tree kind files) {P : List α → Prop} [DecidablePred P] (hroot : P [])
    (hclosed : ∀ p n, P (p ++ [n]) → P p) : Tree kind (files.filter fun p => P p) where
  nodup := ht.nodup.filter _
  root := List.mem_filter.2 ⟨ht.root, decide_eq_true hroot⟩
  parent p n h := by
    obtain ⟨hmem, hP⟩ := List.mem_filter.1 h
    obtain ⟨hpar, hdir⟩ := ht.parent p n hmem
    exact ⟨List.mem_filter.2 ⟨hpar, decide_eq_true (hclosed p n (of_decide_eq_true hP))⟩, hdir⟩

end WebTester.FileTree

namespace WebTester.Fs
open CString FileTree

/-! ## The files that are left are a tree -/

section Trees

variable {sys : System} {files : List Path} {path : Path}

theorem tree_unlink (ht : Tree sys.kind files) (path : Path) :
    Tree sys.kind (unlink sys files path) := by
  rw [unlink]
  split
  · rename_i q hq
    split_ifs with hcond
    · obtain ⟨-, p, n, -, rfl, -, -, -⟩ := entry_eq_some hq
      exact (filter_within ht (by simp) (leaf_of_kind ht hcond.2)).1.tree
    · exact ht
  · exact ht

theorem tree_rmdir (ht : Tree sys.kind files) (path : Path) :
    Tree sys.kind (rmdir sys files path) := by
  rw [rmdir]
  split
  · rename_i q hq
    split_ifs with hcond
    · obtain ⟨-, p, n, -, rfl, -, -, -⟩ := entry_eq_some hq
      refine ht.filter_ne (by simp) fun k hk => ?_
      have hchild := mem_children.2 hk
      rw [hcond.2.2] at hchild
      cases hchild
    · exact ht
  · exact ht

theorem tree_unlinkEntries {unlinkdir : List Path → Path → Except Fault (List Path)}
    (hrec : ∀ s dir t, Tree sys.kind s → unlinkdir s dir = .ok t → Tree sys.kind t) {dir : Path}
    (names : List CStr) {buffer : Option ℕ} {s t : List Path} (hs : Tree sys.kind s)
    (h : unlinkEntries sys unlinkdir dir names buffer s = .ok t) : Tree sys.kind t := by
  induction names generalizing buffer s with
  | nil =>
    obtain rfl : s = t := Except.ok.inj h
    exact hs
  | cons name names ih =>
    rw [unlinkEntries] at h
    split at h
    · cases h
    · split_ifs at h
      · cases hu : unlinkdir s (dir ++ [name]) with
        | error e =>
          rw [hu] at h
          cases h
        | ok u =>
          rw [hu] at h
          exact ih (tree_rmdir (hrec _ _ _ hs hu) _) h
      · exact ih (tree_unlink hs _) h

theorem tree_unlinkdir {fuel : ℕ} {dir : Path} {s t : List Path} (hs : Tree sys.kind s)
    (h : unlinkdir sys fuel s dir = .ok t) : Tree sys.kind t := by
  induction fuel generalizing dir s t with
  | zero => cases h
  | succ fuel ih =>
    rw [unlinkdir] at h
    split at h
    · obtain rfl : s = t := Except.ok.inj h
      exact hs
    · rename_i names hnames
      cases hu : unlinkEntries sys (unlinkdir sys fuel) dir names none s with
      | error e =>
        rw [hu] at h
        cases h
      | ok u =>
        rw [hu] at h
        obtain rfl : rmdir sys u dir = t := Except.ok.inj h
        exact tree_rmdir (tree_unlinkEntries (fun _ _ _ => ih) names hs hu) _

end Trees

/-! ## The code -/

namespace Volume

def unlinkdir (fuel : ℕ) (v : Volume) (dir : Path) : Option Volume :=
  match h : Fs.unlinkdir v.system fuel v.files dir with
  | .ok files => some ⟨files, v.node, tree_unlinkdir v.tree h⟩
  | .error _ => none

/-- `dir_listing`; the pseudo-dirs are not among the names here. -/
def dirListing (v : Volume) (dir : Path) : Option (List CStr) :=
  (scandir v.system v.files dir).map fun names =>
    Bubble.sort Listing.dynaSortListingComparator (DynaSort.sortLength names.length) names

end Volume

def chrootDir (dataDir : Path) : Path := dataDir ++ ["chroot".toList]

/-- The names in `chroot_items`, where there is room for 64 of 64 bytes. -/
def chrootItems (names : List CStr) : Option (List CStr) :=
  if names.length ≤ 64 ∧ ∀ name ∈ names, name.length < 64 then some names else none

/-- `copy_chroot_data`; `init` are the names that are kept from an earlier call. A path that does
not fit into its buffer is cut. -/
def copyChrootData (mask fuel : ℕ) (dataDir dst : Path) (init : Option (List CStr)) (v : Volume) :
    Option (Volume × List CStr) :=
  if tooLong (chrootDir dataDir) then none
  else (Volume.fcopydir mask fuel v (chrootDir dataDir) dst).bind fun w =>
    match init with
    | some items => some (w, items)
    | none => ((w.dirListing (chrootDir dataDir)).bind chrootItems).map fun items => (w, items)

/-- One turn of the loop of `remove_chroot_data`. -/
def removeItem (fuel : ℕ) (dir : Path) (v : Volume) (name : CStr) : Option Volume :=
  if tooLong (dir ++ [name]) then none else v.unlinkdir fuel (dir ++ [name])

/-- `remove_chroot_data`, up to the first empty name. Behind 64 names there is none. -/
def removeChrootData (fuel : ℕ) (items : List CStr) (dir : Path) (v : Volume) : Option Volume :=
  if items.length < 64 ∨ items.any List.isEmpty then
    (items.takeWhile fun name => !name.isEmpty).foldlM (removeItem fuel dir) v
  else none

/-! ## What the copy and the removal do -/

/-- The names that are kept are those in the directory, and there is room for one more. -/
def Listed (v : Volume) (src : Path) (items : List CStr) : Prop :=
  items.length < 64 ∧ ∀ n, n ∈ items ↔ v.get (src ++ [n]) ≠ none

/-- There is a directory, and the path is in it. -/
def InDir (v : Volume) (d q : Path) : Prop := (∃ m, v.get d = some (.dir m)) ∧ d <+: q

/-- A target leads to a regular file without meeting anything in the directory. -/
def Reaches (v : Volume) (dst target : Path) : Prop :=
  ∃ files q, (∀ p ∈ files, p ∈ v.files ∧ ¬dst <+: p) ∧ q ∈ files ∧
    namei v.system.kind files 39 target = some q ∧ (v.node q).kind = .file

/-- What is not in the directory has not changed. -/
def Same (dst : Path) (v w : Volume) : Prop :=
  ∀ q, ¬dst <+: q → v.get q ≠ none → w.get q = v.get q

/-- The files for chroot may be copied, have short names of which none is in the testing directory
yet, and their links lead to regular files out of it. -/
structure Provided (v : Volume) (src dst : Path) : Prop where
  ready : Ready v src dst
  source : ∃ m, v.get src = some (.dir m)
  few : (children v.files src).length < 64
  name : ∀ n, v.get (src ++ [n]) ≠ none → n ≠ [] ∧ n.length < 64
  fresh : ∀ n, v.get (src ++ [n]) ≠ none → v.get (dst ++ [n]) = none
  link : ∀ r target, v.get (src ++ r) = some (.link target) → Reaches v dst target

/-- Tests leave alone what was copied, and what is not in the testing directory. -/
structure Kept (v w w' : Volume) (src dst : Path) : Prop where
  outside : Same dst w w'
  self : w'.get dst = w.get dst
  copied : ∀ n r, v.get (src ++ [n]) ≠ none → w'.get (dst ++ n :: r) = w.get (dst ++ n :: r)

/-- Of what was copied the directories have gone, and nothing else. -/
structure Removed (v w' u : Volume) (src dst : Path) : Prop where
  gone : ∀ n m r, v.get (src ++ [n]) = some (.dir m) → u.get (dst ++ n :: r) = none
  rest : ∀ q, (∀ n m, v.get (src ++ [n]) = some (.dir m) → ¬dst ++ [n] <+: q) →
    u.get q = w'.get q

/-! ## Where links lead -/

/-- A file that `unlinkdir` takes for what it is. -/
structure Settled (v : Volume) (dst q : Path) (x : Node) : Prop where
  short : tooLong q = false
  socket : ∀ k, x ≠ .socket k
  link : ∀ target, x = .link target → Reaches v dst target

/-- What there is at a path and below it is taken for what it is. -/
def Tidy (v : Volume) (dst d : Path) : Prop :=
  ∀ r x, v.get (d ++ r) = some x → Settled v dst (d ++ r) x

section Tidy

variable {v w : Volume} {dst d q target : Path} {x : Node}

theorem kind_of_get (h : v.get q = some x) : v.system.kind q = x.kind := by
  obtain ⟨-, rfl⟩ := Volume.get_eq_some.1 h
  rfl

theorem Reaches.congr (h : Reaches v dst target) (hsame : Same dst v w) : Reaches w dst target := by
  obtain ⟨files, q, hfiles, hq, hlead, hkind⟩ := h
  have hget : ∀ p ∈ files, p ∈ w.files ∧ w.node p = v.node p := by
    intro p hp
    obtain ⟨hmem, hout⟩ := hfiles p hp
    have hsame := hsame p hout (Volume.mem_files_iff.1 hmem)
    rw [Volume.get_eq_some.2 ⟨hmem, rfl⟩] at hsame
    exact Volume.get_eq_some.1 hsame
  refine ⟨files, q, fun p hp => ⟨(hget p hp).1, (hfiles p hp).2⟩, hq, ?_, ?_⟩
  · refine namei_congr (fun p hp => ⟨hp, ?_⟩) hlead
    show (w.node p).kind = (v.node p).kind
    rw [(hget p hp).2]
  · rw [(hget q hq).2, hkind]

/-- A regular file is reached by its own path. -/
theorem reaches_of_get {m : ℕ} {c : List UInt8} (h : v.get q = some (.file m c))
    (hout : ¬dst <+: q) : Reaches v dst q := by
  have hmem := (Volume.get_eq_some.1 h).1
  have hkind : v.system.kind q = .file := kind_of_get h
  have htree : Tree v.system.kind (v.files.filter fun p => p <+: q) :=
    Tree.filter_closed v.tree List.nil_prefix fun p n hpre => (List.prefix_append p [n]).trans hpre
  have hq : q ∈ v.files.filter fun p => p <+: q := List.mem_filter.2 ⟨hmem, by simp⟩
  refine ⟨_, q, fun p hp => ?_, hq, ?_, hkind⟩
  · obtain ⟨hp, hpre⟩ := List.mem_filter.1 hp
    exact ⟨hp, fun hdst => hout (hdst.trans (of_decide_eq_true hpre))⟩
  · rw [namei_eq]
    exact walk_of_mem htree _ (show [] ++ q ∈ _ from hq) (by simp [hkind])

/-- A link is followed as long as the way to it is there. -/
theorem Reaches.namei_link (h : Reaches v dst target) {path : Path} (hpath : path ≠ [])
    (hget : v.get path = some (.link target)) {s : List Path}
    (hsub : (v.files.filter fun p => ¬dst <+: p ∨ p <+: path) ⊆ s) :
    ∃ q, namei v.system.kind s 40 path = some q ∧ v.system.kind q = .file := by
  obtain ⟨files, q, hfiles, -, hlead, hkind⟩ := h
  have hmem := (Volume.get_eq_some.1 hget).1
  have hlink : v.system.kind ([] ++ path) = .link target := kind_of_get hget
  have htree : Tree v.system.kind (v.files.filter fun p => ¬dst <+: p ∨ p <+: path) := by
    refine Tree.filter_closed v.tree (.inr List.nil_prefix) fun p n hcase => ?_
    have hle : p <+: p ++ [n] := List.prefix_append p [n]
    exact hcase.imp (fun hout hpre => hout (hpre.trans hle)) hle.trans
  have hhere : [] ++ path ∈ v.files.filter fun p => ¬dst <+: p ∨ p <+: path :=
    List.mem_filter.2 ⟨hmem, by simp⟩
  have hroot : v.system.kind [] = .dir := by
    obtain ⟨n, rest, rfl⟩ := List.exists_cons_of_ne_nil hpath
    exact v.tree.dir_of_append (show [] ++ n :: rest ∈ v.files from hmem)
  refine ⟨q, namei_mono hsub ?_, hkind⟩
  rw [namei_eq, walk_of_link htree _ hhere hroot hlink]
  refine namei_mono (fun p hp => ?_) hlead
  obtain ⟨hp, hout⟩ := hfiles p hp
  exact List.mem_filter.2 ⟨hp, by simp [hout]⟩

theorem Settled.congr (h : Settled v dst q x) (hsame : Same dst v w) : Settled w dst q x where
  short := h.short
  socket := h.socket
  link target hx := (h.link target hx).congr hsame

/-- What is left of what is tidy is tidy. -/
theorem Tidy.of_left (h : Tidy v dst d) (hsame : Same dst v w)
    (hleft : ∀ q x, w.get q = some x → v.get q = some x) : Tidy w dst d :=
  fun r x hx => (h r x (hleft _ x hx)).congr hsame

theorem before_of_le {p q : Path} (h : p <+: q) : before p q = false := by
  obtain ⟨r, rfl⟩ := h
  have happend := before_append p [] r
  rw [List.append_nil] at happend
  rw [happend]
  cases r <;> rfl

theorem Tidy.plain (h : Tidy v dst d) (hd : dst <+: d) (hroot : d ≠ []) :
    Plain v.system v.files d d where
  short r hr := by
    obtain ⟨x, hx⟩ := Option.ne_none_iff_exists'.1 (Volume.mem_files_iff.1 hr)
    exact (h r x hx).short
  socket r hr := by
    obtain ⟨x, hx⟩ := Option.ne_none_iff_exists'.1 (Volume.mem_files_iff.1 hr)
    have hsocket := (h r x hx).socket
    rw [kind_of_get hx]
    cases x with
    | socket k => exact absurd rfl (hsocket k)
    | dir | file | link => simp [Node.kind]
  link r target hr hkind := by
    obtain ⟨x, hx⟩ := Option.ne_none_iff_exists'.1 (Volume.mem_files_iff.1 hr)
    have hget : v.get (d ++ r) = some (.link target) := by
      rw [kind_of_get hx] at hkind
      cases x with
      | link t =>
        cases hkind
        exact hx
      | dir | file | socket => cases hkind
    have hsettled := h r _ hget
    obtain ⟨q, hq, hfile⟩ := (hsettled.link target rfl).namei_link (by simp [hroot]) hget
      (s := remaining v.files d (d ++ r)) (by
        intro p hp
        obtain ⟨hp, hcase⟩ := List.mem_filter.1 hp
        refine List.mem_filter.2 ⟨hp, ?_⟩
        rcases of_decide_eq_true hcase with hout | hpre
        · have hout : ¬d <+: p := fun hpre => hout (hd.trans hpre)
          simp [hout]
        · simp [before_of_le hpre])
    rw [stat_of_namei hsettled.short hq, hfile]

end Tidy

/-! ## A name is removed -/

namespace Volume

variable {v w : Volume} {p q dst d dir : Path} {n : CStr} {x : Node} {fuel : ℕ}

theorem unlinkdir_eq {files : List Path}
    (h : Fs.unlinkdir v.system fuel v.files dir = .ok files) :
    ∃ w, v.unlinkdir fuel dir = some w ∧ w.files = files ∧ w.node = v.node := by
  rw [unlinkdir]
  split
  · rename_i files' h'
    rw [h] at h'
    cases h'
    exact ⟨_, rfl, rfl, rfl⟩
  · rename_i h'
    rw [h] at h'
    cases h'

/-- The list is the one that `dir_listing` builds in the order of `scandir`. -/
theorem dirListing_represents {malloc : ℕ → ℕ} (hmalloc : Function.Injective malloc)
    {eps names : List CStr} (hscan : scandir v.system v.files dir = some names)
    (heps : eps.filter Listing.listed = names) :
    ∃ t l, Listing.dirListing malloc eps = some t ∧ Dynastruc.Represents t l ∧
      v.dirListing dir = some (l.map Dynastruc.Cell.data) := by
  obtain ⟨t, l, ht, hrep, hdata⟩ := Listing.dirListing_spec hmalloc eps
  refine ⟨t, l, ht, hrep, ?_⟩
  rw [hdata, heps, dirListing, hscan, Option.map_some]

theorem unlinkdir_of_scandir (h : scandir v.system v.files dir = none) (hfuel : 0 < fuel) :
    ∃ w, v.unlinkdir fuel dir = some w ∧ w.get = v.get := by
  obtain ⟨fuel, rfl⟩ := Nat.exists_eq_add_one.2 hfuel
  have hrun : Fs.unlinkdir v.system (fuel + 1) v.files dir = .ok v.files := by
    rw [Fs.unlinkdir, h]
  obtain ⟨w, hw, hfiles, hnode⟩ := unlinkdir_eq hrun
  refine ⟨w, hw, ?_⟩
  funext q
  rw [get, get, hfiles, hnode]

/-- A tidy directory goes with everything in it, and nothing else does. -/
theorem unlinkdir_of_tidy {m : ℕ} (h : Tidy v dst d) (hd : dst <+: d) (hroot : d ≠ [])
    (hm : v.get d = some (.dir m))
    (hdepth : ∀ r k, v.get (d ++ r) = some (.dir k) → r.length < fuel) :
    ∃ w, v.unlinkdir fuel d = some w ∧ ∀ q, w.get q = if d <+: q then none else v.get q := by
  have hmem := (get_eq_some.1 hm).1
  have hshort := (h [] _ (by rwa [List.append_nil])).short
  rw [List.append_nil] at hshort
  have hkind : v.system.kind d = .dir := kind_of_get hm
  have hsite := site_of_plain v.tree hkind (h.plain hd hroot) (entry_of_get hm hroot hshort)
  have hv : Visiting v.system v.files d (d ++ []) v.files :=
    ⟨List.Subset.refl v.files, v.tree, fun p hp _ => hp⟩
  have hdepth' : ∀ q ∈ v.files, d ++ [] <+: q → v.system.kind q = .dir →
      q.length < (d ++ []).length + fuel := by
    rintro q hq ⟨r, rfl⟩ hdir
    rw [List.append_nil] at hq hdir ⊢
    obtain ⟨k, hk⟩ := exists_dir_of_kind (get_eq_some.2 ⟨hq, rfl⟩) hdir
    have hlt := hdepth r k hk
    rw [List.length_append]
    omega
  obtain ⟨files, hrun, hwithin, hcleared⟩ := unlinks hsite fuel [] v.files
    (by rwa [List.append_nil]) (by rwa [List.append_nil]) hdepth' hv
  rw [List.append_nil] at hrun hwithin hcleared
  obtain ⟨w, hw, rfl, hnode'⟩ := unlinkdir_eq hrun
  refine ⟨w, hw, fun q => ?_⟩
  split_ifs with hq
  · by_contra hne
    exact hcleared (fun _ => rfl) q (mem_files_iff.2 hne) hq
  · by_cases hmem : q ∈ v.files
    · have hmem' := hwithin.frame q hmem hq
      simp [get, hmem, hmem', hnode']
    · have hmem' : q ∉ w.files := fun h => hmem (hwithin.sub h)
      simp [get, hmem, hmem']

open Classical in
/-- Only a directory goes. -/
theorem unlinkdir_of_entry {m : ℕ} (hdir : v.get dst = some (.dir m)) (h : Tidy v dst (dst ++ [n]))
    (hdepth : ∀ r k, v.get (dst ++ n :: r) = some (.dir k) → r.length < fuel)
    (hfuel : 0 < fuel) :
    ∃ w, v.unlinkdir fuel (dst ++ [n]) = some w ∧
      ∀ q, w.get q = if InDir v (dst ++ [n]) q then none else v.get q := by
  -- nothing goes where there is no directory to be listed
  have hstays (hno : ∀ k, v.get (dst ++ [n]) ≠ some (.dir k))
      (hscan : scandir v.system v.files (dst ++ [n]) = none) :
      ∃ w, v.unlinkdir fuel (dst ++ [n]) = some w ∧
        ∀ q, w.get q = if InDir v (dst ++ [n]) q then none else v.get q := by
    obtain ⟨w, hw, hget⟩ := unlinkdir_of_scandir hscan hfuel
    refine ⟨w, hw, fun q => ?_⟩
    rw [hget, if_neg]
    rintro ⟨⟨k, hk⟩, -⟩
    exact hno k hk
  cases hx : v.get (dst ++ [n]) with
  | none =>
    refine hstays (by simp [hx]) ?_
    rw [scandir, resolve_of_new hdir hx, Option.bind_none]
  | some x =>
    have hsettled := h [] x (by rwa [List.append_nil])
    have hshort := hsettled.short
    rw [List.append_nil] at hshort
    cases x with
    | dir k =>
      have hdepth' : ∀ r k, v.get (dst ++ [n] ++ r) = some (.dir k) → r.length < fuel := by
        simpa using hdepth
      obtain ⟨w, hw, hget⟩ :=
        unlinkdir_of_tidy h (List.prefix_append dst [n]) (by simp) hx hdepth'
      refine ⟨w, hw, fun q => ?_⟩
      simp [hget, InDir, hx]
    | file k c =>
      refine hstays (by simp [hx]) ?_
      rw [scandir, resolve_of_get hx (by simp) hshort, Option.bind_some, if_neg]
      simp [kind_of_get hx, Node.kind]
    | link target =>
      refine hstays (by simp [hx]) ?_
      obtain ⟨q, hq, hfile⟩ := (hsettled.link target rfl).namei_link (by simp) hx
        fun _ hp => List.mem_of_mem_filter hp
      rw [scandir, resolve, if_neg (by simp [hshort]), hq, Option.bind_some, if_neg]
      simp [hfile]
    | socket k => exact absurd rfl (hsettled.socket k)

end Volume

/-! ## The names -/

section Names

variable {v w w' : Volume} {src dst q : Path} {items : List CStr} {fuel m : ℕ}

open Classical in
/-- The names go one by one. -/
theorem foldlM_removeItem (hfuel : 0 < fuel) (hdir : v.get dst = some (.dir m))
    (hitems : ∀ n ∈ items, tooLong (dst ++ [n]) = false ∧ Tidy v dst (dst ++ [n]) ∧
      ∀ r k, v.get (dst ++ n :: r) = some (.dir k) → r.length < fuel) :
    ∃ w, items.foldlM (removeItem fuel dst) v = some w ∧
      ∀ q, w.get q = if ∃ n ∈ items, InDir v (dst ++ [n]) q then none else v.get q := by
  induction items generalizing v with
  | nil => exact ⟨v, rfl, by simp⟩
  | cons n items ih =>
    obtain ⟨hshort, htidy, hdepth⟩ := hitems n (by simp)
    obtain ⟨u, hu, hget⟩ := Volume.unlinkdir_of_entry hdir htidy hdepth hfuel
    have hleft : ∀ q x, u.get q = some x → v.get q = some x := by
      intro q x hx
      rw [hget] at hx
      split_ifs at hx
      exact hx
    have hsame : Same dst v u := by
      intro q hq _
      rw [hget, if_neg]
      exact fun hin => hq ((List.prefix_append dst [n]).trans hin.2)
    have hdir' : u.get dst = some (.dir m) := by
      rw [hget, if_neg, hdir]
      exact fun hin => not_prefix_of_concat dst n hin.2
    obtain ⟨w, hw, hgetw⟩ := ih hdir' fun k hk => by
      obtain ⟨hshort, htidy, hdepth⟩ := hitems k (by simp [hk])
      exact ⟨hshort, htidy.of_left hsame hleft, fun r j hj => hdepth r j (hleft _ _ hj)⟩
    refine ⟨w, ?_, fun q => ?_⟩
    · rw [List.foldlM_cons, removeItem, if_neg (by simp [hshort]), hu, Option.bind_eq_bind,
        Option.bind_some]
      exact hw
    · rw [hgetw, hget]
      by_cases hq : InDir v (dst ++ [n]) q
      · rw [if_pos hq, ite_self, if_pos ⟨n, by simp, hq⟩]
      · -- the other directories are still there, as the path is in none of what has gone
        have hiff : (∃ k ∈ items, InDir u (dst ++ [k]) q) ↔
            ∃ k ∈ n :: items, InDir v (dst ++ [k]) q := by
          constructor
          · rintro ⟨k, hk, ⟨j, hj⟩, hpre⟩
            exact ⟨k, by simp [hk], ⟨j, hleft _ _ hj⟩, hpre⟩
          · rintro ⟨k, hk, ⟨j, hj⟩, hpre⟩
            rcases List.mem_cons.1 hk with rfl | hk
            · exact absurd ⟨⟨j, hj⟩, hpre⟩ hq
            · refine ⟨k, hk, ⟨j, ?_⟩, hpre⟩
              rw [hget, if_neg, hj]
              exact fun hin => hq ⟨hin.1, hin.2.trans hpre⟩
        rw [if_neg hq]
        simp only [hiff]

theorem Provided.short (hp : Provided v src dst) : tooLong src = false := by
  obtain ⟨m, hm⟩ := hp.source
  have hshort := (hp.ready.short [] (by simp [hm])).1
  rwa [List.append_nil] at hshort

/-- The listing fits, and is of the names in the directory. -/
theorem listed_of_dirListing (hp : Provided v src dst) (hc : Copied v w src dst) :
    ∃ items, (w.dirListing src).bind chrootItems = some items ∧ Listed v src items := by
  obtain ⟨m, hm⟩ := hp.source
  have hsrc : ∀ r, w.get (src ++ r) = v.get (src ++ r) := by
    intro r
    have hout : ¬dst <+: src ++ r := by
      have happart := Volume.apart_append hp.ready.apart [] r
      rwa [List.append_nil] at happart
    refine hc.outside _ hout fun hpre => ?_
    exact absurd ((List.prefix_append src r).trans hpre) hp.ready.apart.1
  have hm' : w.get src = some (.dir m) := by
    have hself := hsrc []
    rw [List.append_nil] at hself
    rw [hself, hm]
  obtain ⟨items, hlist, hperm⟩ : ∃ items, w.dirListing src = some items ∧
      items.Perm (children w.files src) := by
    rw [Volume.dirListing, Volume.scandir_of_get hm' hp.short, Option.map_some]
    exact ⟨_, rfl, (Bubble.sort_perm _ _).trans (List.perm_insertionSort _ _)⟩
  have hmem : ∀ n, n ∈ items ↔ v.get (src ++ [n]) ≠ none := by
    intro n
    rw [hperm.mem_iff, Volume.mem_children_iff, hsrc]
  have hlength : items.length < 64 := by
    have hsub : items ⊆ children v.files src :=
      fun n hn => Volume.mem_children_iff.2 ((hmem n).1 hn)
    have hnodup : items.Nodup := hperm.nodup_iff.2 (w.tree.children_nodup src)
    exact (List.subperm_of_subset hnodup hsub).length_le.trans_lt hp.few
  refine ⟨items, ?_, hlength, hmem⟩
  rw [hlist, Option.bind_some, chrootItems, if_pos]
  exact ⟨hlength.le, fun n hn => (hp.name n ((hmem n).1 hn)).2⟩

/-- In the copy there is only what was copied. -/
theorem overlay_of_fresh (hp : Provided v src dst) {n : CStr} (hn : v.get (src ++ [n]) ≠ none)
    (r : Path) :
    overlay v src dst (n :: r) = (v.get (src ++ n :: r)).bind (Node.copyOver none) := by
  have hnone : v.get (dst ++ n :: r) = none := by
    by_contra hne
    exact Volume.get_ne_none_of_le ⟨r, by simp⟩ hne (hp.fresh n hn)
  rw [overlay, hnone]
  cases v.get (src ++ n :: r) <;> rfl

/-- What was copied is tidy after the tests. -/
theorem tidy_of_kept (hp : Provided v src dst) (hc : Copied v w src dst)
    (hk : Kept v w w' src dst) {n : CStr} (hn : v.get (src ++ [n]) ≠ none) :
    Tidy w' dst (dst ++ [n]) := by
  have hsame : Same dst v w' := by
    intro q hq hne
    have hw := hc.outside q hq fun _ => hne
    rw [hk.outside q hq (by rwa [hw]), hw]
  intro r x hx
  rw [List.append_assoc, List.singleton_append] at hx ⊢
  rw [hk.copied n r hn, hc.inside, overlay_of_fresh hp hn] at hx
  obtain ⟨y, hy, hover⟩ := Option.bind_eq_some_iff.1 hx
  have hshort := (hp.ready.short (n :: r) (by simp [hy])).2
  cases y with
  | dir j | file j c =>
    obtain rfl := Option.some.inj hover
    exact ⟨hshort, by simp, by simp⟩
  | link target =>
    obtain rfl := Option.some.inj hover
    refine ⟨hshort, by simp, fun t ht => ?_⟩
    obtain rfl := Node.link.inj ht
    exact (hp.link (n :: r) target hy).congr hsame
  | socket j => cases hover

/-- The testing directory is there. -/
theorem get_dst_of_kept (hp : Provided v src dst) (hc : Copied v w src dst)
    (hk : Kept v w w' src dst) : ∃ m, w'.get dst = some (.dir m) := by
  obtain ⟨m, hm⟩ := hp.source
  have hself := hc.inside []
  rw [overlay, List.append_nil, List.append_nil, hm] at hself
  rw [hk.self, hself]
  cases hx : v.get dst with
  | none => exact ⟨statPerms m, rfl⟩
  | some x =>
    obtain ⟨k, hk⟩ :=
      Volume.exists_dir_of_kind hx (hp.ready.way dst (List.prefix_refl dst) x hx)
    exact ⟨k, by simp [Node.copyOver, ← hx, hk]⟩

/-- Copies of directories are directories, and nothing else is. -/
theorem inDir_iff_of_kept (hp : Provided v src dst) (hc : Copied v w src dst)
    (hk : Kept v w w' src dst) {n : CStr} (hn : v.get (src ++ [n]) ≠ none) :
    InDir w' (dst ++ [n]) q ↔ (∃ m, v.get (src ++ [n]) = some (.dir m)) ∧ dst ++ [n] <+: q := by
  have hget : w'.get (dst ++ [n]) = (v.get (src ++ [n])).bind (Node.copyOver none) := by
    rw [hk.copied n [] hn, hc.inside, overlay_of_fresh hp hn]
  rw [InDir, hget]
  refine and_congr_left' ?_
  obtain ⟨x, hx⟩ := Option.ne_none_iff_exists'.1 hn
  rw [hx]
  cases x <;> simp [Node.copyOver]

theorem removed_of_kept (hp : Provided v src dst) (hc : Copied v w src dst)
    (hitems : Listed v src items) (hk : Kept v w w' src dst)
    (hroomy : Volume.Roomy v src dst fuel) :
    ∃ u, removeChrootData fuel items dst w' = some u ∧ Removed v w' u src dst := by
  obtain ⟨m, hm⟩ := hp.source
  obtain ⟨k, hdir⟩ := get_dst_of_kept hp hc hk
  have hfuel : 0 < fuel := (Nat.zero_le _).trans_lt (hroomy [] m (by rw [List.append_nil, hm]))
  obtain ⟨u, hu, hget⟩ := foldlM_removeItem hfuel hdir fun n hn => by
    have hn := (hitems.2 n).1 hn
    refine ⟨(hp.ready.short [n] hn).2, tidy_of_kept hp hc hk hn, fun r j hj => ?_⟩
    rw [hk.copied n r hn, hc.inside, overlay_of_fresh hp hn] at hj
    obtain ⟨y, hy, hover⟩ := Option.bind_eq_some_iff.1 hj
    cases y with
    | dir i =>
      have hlt := hroomy (n :: r) i hy
      rw [List.length_cons] at hlt
      omega
    | file | link | socket => cases hover
  have hnames : (items.takeWhile fun name => !name.isEmpty) = items :=
    List.takeWhile_eq_self_iff.2 fun n hn => by simp [(hp.name n ((hitems.2 n).1 hn)).1]
  refine ⟨u, by rw [removeChrootData, if_pos (.inl hitems.1), hnames, hu], ?_, ?_⟩
  · intro n j r hn
    have hne : v.get (src ++ [n]) ≠ none := by simp [hn]
    rw [hget, if_pos]
    exact ⟨n, (hitems.2 n).2 hne, (inDir_iff_of_kept hp hc hk hne).2 ⟨⟨j, hn⟩, r, by simp⟩⟩
  · intro q hq
    rw [hget, if_neg]
    rintro ⟨n, hn, hin⟩
    obtain ⟨⟨j, hj⟩, hpre⟩ := (inDir_iff_of_kept hp hc hk ((hitems.2 n).1 hn)).1 hin
    exact hq n j hj hpre

end Names

/-- What a solution needs after `chroot` is copied before the tests, over nothing that is in the
testing directory, if the stack has room for the calls. After the tests its directories are gone
with everything in them and whatever else is in the file system is as the tests have left it. -/
theorem chroot_data_removed (mask : ℕ) (stack : CallStack) (v : Volume) (dataDir dst : Path)
    (init : Option (List CStr)) (hp : Provided v (chrootDir dataDir) dst)
    (hroomy : Volume.Roomy v (chrootDir dataDir) dst stack.calls)
    (hinit : ∀ items ∈ init, Listed v (chrootDir dataDir) items) :
    ∃ w items, copyChrootData mask stack.calls dataDir dst init v = some (w, items) ∧
      Listed v (chrootDir dataDir) items ∧ Copied v w (chrootDir dataDir) dst ∧
      ∀ w', Kept v w w' (chrootDir dataDir) dst →
        ∃ u, removeChrootData stack.calls items dst w' = some u ∧
          Removed v w' u (chrootDir dataDir) dst := by
  obtain ⟨m, hm⟩ := hp.source
  obtain ⟨w, hw, hc⟩ :=
    Volume.copies mask stack.calls v (chrootDir dataDir) dst m hp.ready hm hroomy
  obtain ⟨items, hrun, hitems⟩ : ∃ items,
      copyChrootData mask stack.calls dataDir dst init v = some (w, items) ∧
      Listed v (chrootDir dataDir) items := by
    rw [copyChrootData, if_neg (by simp [hp.short]), hw, Option.bind_some]
    cases init with
    | some items => exact ⟨items, rfl, hinit items rfl⟩
    | none =>
      obtain ⟨items, hlist, hitems⟩ := listed_of_dirListing hp hc
      exact ⟨items, by simp only [hlist, Option.map_some], hitems⟩
  exact ⟨w, items, hrun, hitems, hc, fun w' hk => removed_of_kept hp hc hitems hk hroomy⟩

/-- In the directory `chroot` there are a directory with a file and a link to it, and a file. -/
def chrootSample : Volume where
  files := [[], [['t']], chrootDir [], chrootDir [] ++ [['b']], chrootDir [] ++ [['b'], ['s']],
    chrootDir [] ++ [['b'], ['l']], chrootDir [] ++ [['f']]]
  node q :=
    if q = chrootDir [] ++ [['b'], ['s']] then .file 0x1ED [104, 105]
    else if q = chrootDir [] ++ [['b'], ['l']] then .link (chrootDir [] ++ [['b'], ['s']])
    else if q = chrootDir [] ++ [['f']] then .file 0x1A4 []
    else .dir 0x1ED
  tree := Tree.of_forall (by decide +kernel) (by decide +kernel) (by decide +kernel)

theorem provided_chrootSample : Provided chrootSample (chrootDir []) [['t']] where
  ready := ready_of_forall (by decide +kernel) (by decide +kernel) (by decide +kernel)
  source := ⟨0x1ED, by decide +kernel⟩
  few := by decide +kernel
  name n hn := by
    have hnames : ∀ k ∈ children chrootSample.files (chrootDir []), k ≠ [] ∧ k.length < 64 := by
      decide +kernel
    exact hnames n (Volume.mem_children_iff.2 hn)
  fresh n _ := by
    have hempty : children chrootSample.files [['t']] = [] := by decide +kernel
    by_contra hne
    have hmem := Volume.mem_children_iff.2 hne
    rw [hempty] at hmem
    cases hmem
  link r target hlink := by
    have hnode := (Volume.get_eq_some.1 hlink).2
    simp only [chrootSample] at hnode
    split_ifs at hnode
    obtain rfl := Node.link.inj hnode
    exact reaches_of_get (m := 0x1ED) (c := [104, 105]) (by decide +kernel) (by decide +kernel)

theorem chroot_data_removed_sample : ∃ w items,
    copyChrootData 0x180 usualStack.calls [] [['t']] none chrootSample = some (w, items) ∧
    Listed chrootSample (chrootDir []) items ∧ Copied chrootSample w (chrootDir []) [['t']] ∧
    ∀ w', Kept chrootSample w w' (chrootDir []) [['t']] →
      ∃ u, removeChrootData usualStack.calls items [['t']] w' = some u ∧
        Removed chrootSample w' u (chrootDir []) [['t']] :=
  chroot_data_removed 0x180 usualStack chrootSample [] [['t']] none provided_chrootSample
    (Volume.roomy_of_forall (by decide +kernel)) (by simp)

end WebTester.Fs
