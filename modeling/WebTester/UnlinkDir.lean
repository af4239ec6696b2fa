import WebTester.CString
import WebTester.CallStack
import WebTester.FileTree
import Mathlib.Data.List.Nodup
import Mathlib.Data.List.Sort

/-!
# Recursive deletion of a directory

`unlinkdir` lists a directory, decides for every entry by `stat` whether it is a directory, and
calls itself or `unlink`. Paths are given by their components from the root; what is in the file
system besides the files that exist, their kinds and the permissions, does not change. `stat`
leaves its buffer as it is when it fails, and the buffer is not initialised. A call takes more than
64 KiB of the stack, so the fuel is the number of calls that the stack holds.
-/
namespace WebTester.Fs
open CString FileTree

abbrev Path := List CStr

/-- What never changes while a directory is deleted: what the files are, and whether they may be
removed. -/
structure System where
  kind : Path → Kind CStr
  permits : Path → Bool

/-- The file type in `st_mode`. -/
def stMode : Kind CStr → ℕ
  | .dir => 0x4000
  | .file => 0x8000
  | .socket => 0xC000
  | .link _ => 0xA000

def S_IFDIR : ℕ := 0x4000

/-- A path is written with a slash before every component. -/
def text (p : Path) : CStr := p.flatMap ('/' :: ·)

/-- The system does not take a path that fills `PATH_MAX` bytes without its NUL. -/
def tooLong (p : Path) : Bool := 4096 ≤ (text p).length

/-- `strcmp` does not give a positive number. -/
def strcmpLe : CStr → CStr → Bool
  | [], _ => true
  | _ :: _, [] => false
  | a :: s, b :: t => if a = b then strcmpLe s t else a.toNat < b.toNat

/-- The order of `scandir`; the server never leaves the C locale. -/
def alphasort (names : List CStr) : List CStr := names.insertionSort (strcmpLe · ·)

inductive Fault
  | fuel
  | uninitialised
  deriving DecidableEq, Repr

section Operations

variable (sys : System) (files : List Path) (path : Path)

/-- The file that a path leads to; up to 40 links are followed. -/
def resolve : Option Path :=
  if tooLong path then none else namei sys.kind files 40 path

/-- The entry that a path names: a link at its end is not followed. -/
def entry : Option Path :=
  if tooLong path then none
  else path.getLast?.bind fun n => (namei sys.kind files 40 path.dropLast).bind fun p =>
    if p ++ [n] ∈ files then some (p ++ [n]) else none

def stat : Option ℕ :=
  (resolve sys files path).map fun p => stMode (sys.kind p)

/-- The names in a directory, without `.` and `..`, over which the loop passes. -/
def scandir : Option (List CStr) :=
  (resolve sys files path).bind fun p =>
    if sys.kind p = .dir then some (alphasort (children files p)) else none

def unlink : List Path :=
  match entry sys files path with
  | some p => if sys.permits p ∧ sys.kind p ≠ .dir then files.filter (· ≠ p) else files
  | none => files

def rmdir : List Path :=
  match entry sys files path with
  | some p =>
    if sys.permits p ∧ sys.kind p = .dir ∧ children files p = [] then files.filter (· ≠ p)
    else files
  | none => files

end Operations

/-- The loop of `unlinkdir` over the names in a directory. -/
def unlinkEntries (sys : System) (unlinkdir : List Path → Path → Except Fault (List Path))
    (dir : Path) : List CStr → Option ℕ → List Path → Except Fault (List Path)
  | [], _, files => .ok files
  | name :: names, buffer, files =>
    match (stat sys files (dir ++ [name])).or buffer with
    | none => .error .uninitialised
    | some mode =>
      if mode &&& S_IFDIR ≠ 0 then do
        let files ← unlinkdir files (dir ++ [name])
        unlinkEntries sys unlinkdir dir names (some mode) (rmdir sys files (dir ++ [name]))
      else
        unlinkEntries sys unlinkdir dir names (some mode) (unlink sys files (dir ++ [name]))

def unlinkdir (sys : System) : ℕ → List Path → Path → Except Fault (List Path)
  | 0, _, _ => .error .fuel
  | fuel + 1, files, dir =>
    match scandir sys files dir with
    | none => .ok files
    | some names => do
      let files ← unlinkEntries sys (unlinkdir sys fuel) dir names none files
      return rmdir sys files dir

/-- What lies below a directory is looked at by name: of two paths the one goes first whose name
goes first where they part. -/
def before : Path → Path → Bool
  | m :: p, n :: q => if m = n then before p q else strcmpLe m n
  | _, _ => false

/-- The files that are left when an entry of the directory is reached and everything before it
has been removed. -/
def remaining (files : List Path) (d q : Path) : List Path :=
  files.filter fun p => ¬(d <+: p ∧ before p q)

/-- What an entry's `stat` says is right: there are no sockets, every link leads to a regular
file that is there when the link is reached, and no path is too long. -/
structure Plain (sys : System) (files : List Path) (dir d : Path) : Prop where
  socket : ∀ r, d ++ r ∈ files → sys.kind (d ++ r) ≠ .socket
  link : ∀ r target, d ++ r ∈ files → sys.kind (d ++ r) = .link target →
    stat sys (remaining files d (d ++ r)) (dir ++ r) = some (stMode .file)
  short : ∀ r, d ++ r ∈ files → tooLong (dir ++ r) = false

lemma plain_of_forall {sys : System} {files : List Path} {dir d : Path}
    (h : ∀ q ∈ files, d <+: q → tooLong (dir ++ q.drop d.length) = false ∧
      sys.kind q ≠ .socket ∧ (stMode (sys.kind q) = 0xA000 →
        stat sys (remaining files d q) (dir ++ q.drop d.length) = some (stMode .file))) :
    Plain sys files dir d where
  socket r hr := (h _ hr (List.prefix_append d r)).2.1
  link := by
    intro r target hr hkind
    obtain ⟨-, -, hlink⟩ := h _ hr (List.prefix_append d r)
    rw [List.drop_left] at hlink
    exact hlink (by rw [hkind, stMode])
  short := by
    intro r hr
    obtain ⟨hshort, -, -⟩ := h _ hr (List.prefix_append d r)
    rwa [List.drop_left] at hshort

/-- Deletion stays inside the directory that a path names, terminates on its stack, and leaves
nothing of it. -/
def Deleted (sys : System) (stack : CallStack) (files : List Path) (dir : Path) : Prop :=
  ∃ files', unlinkdir sys stack.calls files dir = .ok files' ∧
    (∀ q, (∀ d ∈ entry sys files dir, ¬d <+: q) → (q ∈ files' ↔ q ∈ files)) ∧
    ((∀ q, sys.permits q) → entry sys files' dir = none)

/-! ## The order of the entries -/

lemma strcmpLe_total (s t : CStr) : strcmpLe s t ∨ strcmpLe t s := by
  induction s generalizing t with
  | nil => exact .inl rfl
  | cons a s ih =>
    cases t with
    | nil => exact .inr rfl
    | cons b t =>
      by_cases hab : a = b
      · simpa [strcmpLe, hab] using ih t
      · have hne : a.toNat ≠ b.toNat := fun h => hab (Char.toNat_inj.1 h)
        simp only [strcmpLe, hab, Ne.symm hab, if_false, decide_eq_true_eq]
        omega

lemma strcmpLe_trans {s t u : CStr} (hst : strcmpLe s t) (htu : strcmpLe t u) :
    strcmpLe s u := by
  induction s generalizing t u with
  | nil => rfl
  | cons a s ih =>
    cases t with
    | nil => cases hst
    | cons b t =>
      cases u with
      | nil => cases htu
      | cons c u =>
        rw [strcmpLe] at hst htu ⊢
        split_ifs at hst htu ⊢ with hab hbc hac hac hbc hac hac <;> grind

lemma alphasort_pairwise (names : List CStr) : (alphasort names).Pairwise (strcmpLe · ·) := by
  have : Std.Total (fun s t : CStr => strcmpLe s t = true) := ⟨strcmpLe_total⟩
  have : IsTrans CStr (fun s t => strcmpLe s t = true) := ⟨fun _ _ _ => strcmpLe_trans⟩
  exact List.pairwise_insertionSort _ names

lemma alphasort_nodup {names : List CStr} (h : names.Nodup) : (alphasort names).Nodup :=
  (List.perm_insertionSort _ names).nodup_iff.2 h

lemma before_append (e p q : Path) : before (e ++ p) (e ++ q) = before p q := by
  induction e with
  | nil => rfl
  | cons n e ih => simpa [before] using ih

lemma before_self (e : Path) : before e e = false := by
  induction e with
  | nil => rfl
  | cons n e ih => simpa [before] using ih

lemma before_concat {p q : Path} (n : CStr) (h : before p q) : before p (q ++ [n]) := by
  induction p generalizing q with
  | nil => cases h
  | cons m p ih =>
    cases q with
    | nil => cases h
    | cons k q =>
      rw [before] at h
      rw [List.cons_append, before]
      split_ifs at h ⊢
      · exact ih h
      · exact h

/-! ## Removing below a path -/

/-- Nothing is removed but below a path. -/
structure Within (sys : System) (q : Path) (s t : List Path) : Prop where
  sub : t ⊆ s
  tree : Tree sys.kind t
  frame : ∀ p ∈ s, ¬q <+: p → p ∈ t

/-- With all permissions nothing is left below a path. -/
def Cleared (sys : System) (q : Path) (t : List Path) : Prop :=
  (∀ p, sys.permits p) → ∀ p ∈ t, ¬q <+: p

variable {sys : System} {files s t u : List Path} {path q e : Path}

namespace Within

lemma refl (ht : Tree sys.kind s) : Within sys q s s :=
  ⟨List.Subset.refl s, ht, fun _ hp _ => hp⟩

lemma trans (h : Within sys q s t) (h' : Within sys q t u) : Within sys q s u :=
  ⟨List.Subset.trans h'.sub h.sub, h'.tree, fun p hp hq => h'.frame p (h.frame p hp hq) hq⟩

lemma mono (h : Within sys q s t) (heq : e <+: q) : Within sys e s t :=
  ⟨h.sub, h.tree, fun p hp he => h.frame p hp fun hq => he (heq.trans hq)⟩

end Within

lemma Cleared.mono (h : Cleared sys q s) (hsub : t ⊆ s) : Cleared sys q t :=
  fun hperm p hp => h hperm p (hsub hp)

/-- A file without files in it is removed. -/
lemma filter_within (ht : Tree sys.kind s) (hq : q ≠ []) (hleaf : ∀ p ∈ s, q <+: p → p = q) :
    Within sys q s (s.filter (· ≠ q)) ∧ Cleared sys q (s.filter (· ≠ q)) := by
  have hchild : ∀ n, q ++ [n] ∉ s := by
    intro n hn
    have heq := hleaf _ hn (List.prefix_append q [n])
    simp at heq
  refine ⟨⟨List.filter_sublist.subset, ht.filter_ne hq hchild, ?_⟩, ?_⟩
  · intro p hp hpre
    have hne : p ≠ q := fun heq => hpre (heq ▸ List.prefix_refl q)
    exact List.mem_filter.2 ⟨hp, by simpa using hne⟩
  · intro _ p hp hpre
    obtain ⟨hmem, hne⟩ := List.mem_filter.1 hp
    exact absurd (hleaf p hmem hpre) (by simpa using hne)

lemma leaf_of_kind (ht : Tree sys.kind s) (hkind : sys.kind q ≠ .dir) :
    ∀ p ∈ s, q <+: p → p = q := by
  rintro p hp ⟨r, rfl⟩
  cases r with
  | nil => exact List.append_nil q
  | cons n r => exact absurd (ht.dir_of_append hp) hkind

lemma cleared_of_notMem (ht : Tree sys.kind s) (hq : q ∉ s) : Cleared sys q s := by
  rintro - p hp ⟨r, rfl⟩
  exact hq (ht.mem_of_append hp)

/-- An entry that is not a directory is unlinked. -/
lemma unlink_within (ht : Tree sys.kind s) (hq : q ≠ []) (hkind : sys.kind q ≠ .dir)
    (he : entry sys s path = some q) :
    Within sys q s (unlink sys s path) ∧ Cleared sys q (unlink sys s path) := by
  have hunlink : unlink sys s path = if sys.permits q then s.filter (· ≠ q) else s := by
    simp [unlink, he, hkind]
  rw [hunlink]
  split_ifs with hperm
  · exact filter_within ht hq (leaf_of_kind ht hkind)
  · exact ⟨.refl ht, fun h => absurd (h q) hperm⟩

/-- A directory is removed when nothing is in it. -/
lemma rmdir_within (ht : Tree sys.kind s) (hq : q ≠ []) (hkind : sys.kind q = .dir)
    (hempty : (∀ p, sys.permits p) → ∀ n, q ++ [n] ∉ s)
    (he : entry sys s path = if q ∈ s then some q else none) :
    Within sys q s (rmdir sys s path) ∧ Cleared sys q (rmdir sys s path) := by
  by_cases hmem : q ∈ s
  · have hrmdir : rmdir sys s path =
        if sys.permits q ∧ children s q = [] then s.filter (· ≠ q) else s := by
      simp [rmdir, he, hmem, hkind]
    rw [hrmdir]
    split_ifs with hcond
    · refine filter_within ht hq ?_
      rintro p hp ⟨r, rfl⟩
      cases r with
      | nil => exact List.append_nil q
      | cons n r =>
        have hn : n ∈ children s q := mem_children.2 (ht.mem_of_append (by simpa using hp))
        rw [hcond.2] at hn
        cases hn
    · refine ⟨.refl ht, fun hperm => absurd ⟨hperm q, ?_⟩ hcond⟩
      refine List.eq_nil_iff_forall_not_mem.2 fun n hn => ?_
      exact hempty hperm n (mem_children.1 hn)
  · have hrmdir : rmdir sys s path = s := by simp [rmdir, he, hmem]
    rw [hrmdir]
    exact ⟨.refl ht, cleared_of_notMem ht hmem⟩

/-! ## Paths below the directory -/

lemma entry_concat {ys : Path} {n : CStr} (hshort : tooLong (ys ++ [n]) = false)
    (h : namei sys.kind s 40 ys = some e) :
    entry sys s (ys ++ [n]) = if e ++ [n] ∈ s then some (e ++ [n]) else none := by
  simp [entry, hshort, h]

/-- The state in which an entry is reached: what is not before it below the directory is still
there. -/
structure Visiting (sys : System) (files : List Path) (d q : Path) (s : List Path) : Prop where
  sub : s ⊆ files
  tree : Tree sys.kind s
  keeps : ∀ p ∈ files, ¬(d <+: p ∧ before p q) → p ∈ s

/-- The state of the loop over the names in a directory `e`, some of which are done. -/
structure Passed (sys : System) (e : Path) (s : List Path) (done : List CStr) (t : List Path) :
    Prop where
  within : Within sys e s t
  only : ∀ p ∈ s, p ∉ t → ∃ m ∈ done, e ++ [m] <+: p
  gone : ∀ m ∈ done, Cleared sys (e ++ [m]) t

lemma Passed.nil (ht : Tree sys.kind s) : Passed sys e s [] s :=
  ⟨.refl ht, fun _ hp hq => absurd hp hq, by simp⟩

lemma Passed.snoc {done : List CStr} {n : CStr} (h : Passed sys e s done t)
    (hw : Within sys (e ++ [n]) t u) (hc : Cleared sys (e ++ [n]) u) :
    Passed sys e s (done ++ [n]) u where
  within := h.within.trans (hw.mono (List.prefix_append e [n]))
  only := by
    intro p hp hu
    by_cases ht : p ∈ t
    · have hpre : e ++ [n] <+: p := by
        by_contra hpre
        exact hu (hw.frame p ht hpre)
      exact ⟨n, by simp, hpre⟩
    · obtain ⟨m, hm, hpre⟩ := h.only p hp ht
      exact ⟨m, List.mem_append_left _ hm, hpre⟩
  gone := by
    intro m hm
    rcases List.mem_append.1 hm with hm | hm
    · exact (h.gone m hm).mono hw.sub
    · obtain rfl := List.mem_singleton.1 hm
      exact hc

/-- The next name is reached after everything before it. -/
lemma Passed.visiting {d : Path} {done rest : List CStr} {n : CStr} (h : Passed sys e s done t)
    (hv : Visiting sys files d e s) (hd : d <+: e)
    (hnames : alphasort (children s e) = done ++ n :: rest) :
    Visiting sys files d (e ++ [n]) t where
  sub := List.Subset.trans h.within.sub hv.sub
  tree := h.within.tree
  keeps := by
    intro p hp hbefore
    have hs : p ∈ s := hv.keeps p hp fun hpe => hbefore ⟨hpe.1, before_concat n hpe.2⟩
    by_contra ht
    obtain ⟨m, hm, r, rfl⟩ := h.only p hs ht
    have hle : strcmpLe m n := by
      have hsorted := alphasort_pairwise (children s e)
      rw [hnames, List.pairwise_append] at hsorted
      exact hsorted.2.2 m hm n List.mem_cons_self
    have hne : m ≠ n := by
      rintro rfl
      have hnodup := alphasort_nodup (hv.tree.children_nodup e)
      rw [hnames, List.nodup_append] at hnodup
      exact hnodup.2.2 m hm m List.mem_cons_self rfl
    refine hbefore ⟨hd.trans ⟨[m] ++ r, by simp⟩, ?_⟩
    rw [List.append_assoc, before_append]
    simpa [before, hne] using hle

/-- The path `dir` leads to the directory `d`, and on to what is below it. -/
def Leads (sys : System) (dir d : Path) (s : List Path) : Prop :=
  ∀ r, d ++ r ∈ s → (∀ target, sys.kind (d ++ r) ≠ .link target) →
    namei sys.kind s 40 (dir ++ r) = some (d ++ r)

lemma leads_of_parent (ht : Tree sys.kind s) {xs p : Path} {n : CStr}
    (h : namei sys.kind s 40 xs = some p) : Leads sys (xs ++ [n]) (p ++ [n]) s := by
  intro r hmem hlink
  rw [List.append_assoc] at hmem hlink ⊢
  rw [List.append_assoc]
  exact namei_append ht (ht.dir_of_append hmem) hmem hlink h

lemma stat_of_namei (hshort : tooLong path = false) (h : namei sys.kind s 40 path = some q) :
    stat sys s path = some (stMode (sys.kind q)) := by
  simp [stat, resolve, hshort, h]

lemma scandir_of_namei (hshort : tooLong path = false) (h : namei sys.kind s 40 path = some q)
    (hkind : sys.kind q = .dir) : scandir sys s path = some (alphasort (children s q)) := by
  simp [scandir, resolve, hshort, h, hkind]

section Below

variable {dir d r : Path}

/-- Right before it is looked at, an entry is taken for what it is. -/
lemma stat_below (hplain : Plain sys files dir d) (hv : Visiting sys files d (d ++ r) s)
    (hlead : Leads sys dir d s) (hmem : d ++ r ∈ files) :
    ∃ mode, stat sys s (dir ++ r) = some mode ∧
      (mode &&& S_IFDIR ≠ 0 ↔ sys.kind (d ++ r) = .dir) := by
  have hs : d ++ r ∈ s := hv.keeps _ hmem (by simp [before_self])
  have hshort := hplain.short r hmem
  cases hkind : sys.kind (d ++ r) with
  | dir | file =>
    have hstat := stat_of_namei hshort (hlead r hs (by simp [hkind]))
    rw [hkind] at hstat
    exact ⟨_, hstat, by decide⟩
  | socket => exact absurd hkind (hplain.socket r hmem)
  | link target =>
    obtain ⟨f, hf, hmode⟩ := Option.map_eq_some_iff.1 (hplain.link r target hmem hkind)
    rw [resolve, hshort] at hf
    have hsub : remaining files d (d ++ r) ⊆ s := by
      intro q hq
      obtain ⟨hq, hbefore⟩ := List.mem_filter.1 hq
      exact hv.keeps q hq (of_decide_eq_true hbefore)
    have hstat := stat_of_namei hshort (namei_mono hsub hf)
    rw [hmode] at hstat
    exact ⟨_, hstat, by simp [stMode, S_IFDIR]⟩

/-- The deletion of the directory `d` with the path `dir` in a state of the file system. -/
structure Site (sys : System) (files : List Path) (dir d : Path) : Prop where
  tree : Tree sys.kind files
  root : d ≠ []
  plain : Plain sys files dir d
  leads : ∀ s, Tree sys.kind s → (∀ p ∈ files, ¬d <+: p → p ∈ s) → Leads sys dir d s
  entry : ∀ s, Tree sys.kind s → (∀ p ∈ files, ¬d <+: p → p ∈ s) →
    entry sys s dir = if d ∈ s then some d else none

lemma not_prefix_of_concat (q : Path) (n : CStr) : ¬q ++ [n] <+: q := by
  intro hpre
  have hle := hpre.length_le
  rw [List.length_append, List.length_singleton] at hle
  omega

lemma Visiting.outer (hv : Visiting sys files d q s) : ∀ p ∈ files, ¬d <+: p → p ∈ s :=
  fun p hp hpre => hv.keeps p hp fun h => hpre h.1

lemma Within.outer (hout : ∀ p ∈ files, ¬d <+: p → p ∈ s) (hw : Within sys (d ++ r) s t) :
    ∀ p ∈ files, ¬d <+: p → p ∈ t := by
  intro p hp hpre
  exact hw.frame p (hout p hp hpre) fun h => hpre ((List.prefix_append d r).trans h)

/-- The path of an entry below the directory names it, as long as its directory is there. -/
lemma Site.entry_below (h : Site sys files dir d) (ht : Tree sys.kind s)
    (hout : ∀ p ∈ files, ¬d <+: p → p ∈ s) (hmem : d ++ r ∈ files)
    (hpar : r ≠ [] → d ++ r.dropLast ∈ s) :
    Fs.entry sys s (dir ++ r) = if d ++ r ∈ s then some (d ++ r) else none := by
  rcases List.eq_nil_or_concat' r with rfl | ⟨r', n, rfl⟩
  · simpa using h.entry s ht hout
  · have hshort := h.plain.short _ hmem
    rw [← List.append_assoc] at hmem hshort ⊢
    have hdir := (h.tree.parent _ n hmem).2
    have hpar' : d ++ r' ∈ s := by simpa using hpar (by simp)
    rw [← List.append_assoc]
    exact entry_concat hshort (h.leads s ht hout r' hpar' (by simp [hdir]))

/-- What a call of `unlinkdir` below the directory does. -/
def Unlinks (sys : System) (files : List Path) (dir d : Path) (fuel : ℕ) : Prop :=
  ∀ r s, d ++ r ∈ files → sys.kind (d ++ r) = .dir →
    (∀ q ∈ files, d ++ r <+: q → sys.kind q = .dir → q.length < (d ++ r).length + fuel) →
    Visiting sys files d (d ++ r) s →
    ∃ t, unlinkdir sys fuel s (dir ++ r) = .ok t ∧ Within sys (d ++ r) s t ∧
      Cleared sys (d ++ r) t

variable {fuel : ℕ}

/-- One entry of a directory. -/
lemma unlinkEntries_cons (h : Site sys files dir d) (ih : Unlinks sys files dir d fuel)
    (rest : List CStr) (buffer : Option ℕ) {n : CStr} (hmem : d ++ (r ++ [n]) ∈ files)
    (hdepth : ∀ q ∈ files, d ++ r <+: q → sys.kind q = .dir →
      q.length < (d ++ r).length + (fuel + 1))
    (hv : Visiting sys files d (d ++ (r ++ [n])) t) (hpar : d ++ r ∈ t) :
    ∃ mode u, unlinkEntries sys (unlinkdir sys fuel) (dir ++ r) (n :: rest) buffer t =
        unlinkEntries sys (unlinkdir sys fuel) (dir ++ r) rest (some mode) u ∧
      Within sys (d ++ (r ++ [n])) t u ∧ Cleared sys (d ++ (r ++ [n])) u := by
  have hroot : d ++ (r ++ [n]) ≠ [] := by simp
  have hs : d ++ (r ++ [n]) ∈ t := hv.keeps _ hmem (by simp [before_self])
  obtain ⟨mode, hstat, hmode⟩ :=
    stat_below h.plain hv (h.leads t hv.tree hv.outer) hmem
  simp only [unlinkEntries, List.append_assoc, hstat, Option.some_or]
  by_cases hkind : sys.kind (d ++ (r ++ [n])) = .dir
  · have hdepth' : ∀ q ∈ files, d ++ (r ++ [n]) <+: q → sys.kind q = .dir →
        q.length < (d ++ (r ++ [n])).length + fuel := by
      intro q hq hpre hdir
      have hlt := hdepth q hq (List.IsPrefix.trans ⟨[n], by simp⟩ hpre) hdir
      simp only [List.length_append, List.length_singleton] at hlt ⊢
      omega
    obtain ⟨u, hu, hwithin, hclear⟩ := ih (r ++ [n]) t hmem hkind hdepth' hv
    have hpar' : d ++ r ∈ u := by
      refine hwithin.frame _ hpar fun hpre => ?_
      exact not_prefix_of_concat (d ++ r) n (by simpa using hpre)
    have he := h.entry_below hwithin.tree (hwithin.outer hv.outer) hmem (by simpa using hpar')
    have hempty : (∀ p, sys.permits p) → ∀ m, d ++ (r ++ [n]) ++ [m] ∉ u :=
      fun hperm m hm => hclear hperm _ hm (List.prefix_append _ [m])
    obtain ⟨hw, hc⟩ := rmdir_within hwithin.tree hroot hkind hempty he
    refine ⟨mode, _, ?_, hwithin.trans hw, hc⟩
    rw [if_pos (hmode.2 hkind), hu]
    rfl
  · have he := h.entry_below hv.tree hv.outer hmem (by simpa using hpar)
    rw [if_pos hs] at he
    obtain ⟨hw, hc⟩ := unlink_within hv.tree hroot hkind he
    refine ⟨mode, _, ?_, hw, hc⟩
    rw [if_neg (fun hbit => hkind (hmode.1 hbit))]

/-- The loop over the names in a directory. -/
lemma unlinkEntries_spec (h : Site sys files dir d) (ih : Unlinks sys files dir d fuel)
    (hdepth : ∀ q ∈ files, d ++ r <+: q → sys.kind q = .dir →
      q.length < (d ++ r).length + (fuel + 1))
    (hv : Visiting sys files d (d ++ r) s) (done rest : List CStr) (buffer : Option ℕ)
    (hnames : alphasort (children s (d ++ r)) = done ++ rest)
    (hpassed : Passed sys (d ++ r) s done t) :
    ∃ u, unlinkEntries sys (unlinkdir sys fuel) (dir ++ r) rest buffer t = .ok u ∧
      Passed sys (d ++ r) s (done ++ rest) u := by
  induction rest generalizing done t buffer with
  | nil => exact ⟨t, rfl, by simpa using hpassed⟩
  | cons n rest ihrest =>
    have hchild : n ∈ children s (d ++ r) := by
      have hn : n ∈ alphasort (children s (d ++ r)) := by simp [hnames]
      exact (List.mem_insertionSort _).1 hn
    have hs : d ++ r ++ [n] ∈ s := mem_children.1 hchild
    have hvn := hpassed.visiting hv (List.prefix_append d r) hnames
    have hpar : d ++ r ∈ t := by
      by_contra hpar
      obtain ⟨m, -, hpre⟩ := hpassed.only _ (hv.tree.parent _ n hs).1 hpar
      exact not_prefix_of_concat (d ++ r) m hpre
    have hmem : d ++ (r ++ [n]) ∈ files := by simpa using hv.sub hs
    rw [List.append_assoc] at hvn
    obtain ⟨mode, u, hstep, hw, hc⟩ :=
      unlinkEntries_cons h ih rest buffer hmem hdepth hvn hpar
    rw [← List.append_assoc] at hw hc
    have hnext : alphasort (children s (d ++ r)) = done ++ [n] ++ rest := by simpa using hnames
    obtain ⟨v, hv', hpassed'⟩ := ihrest _ _ hnext (hpassed.snoc hw hc)
    exact ⟨v, hstep.trans hv', by simpa using hpassed'⟩

/-- Every call of `unlinkdir` below the directory. -/
lemma unlinks (h : Site sys files dir d) (fuel : ℕ) : Unlinks sys files dir d fuel := by
  induction fuel with
  | zero =>
    intro r s hmem hkind hdepth _
    have hlt := hdepth _ hmem (List.prefix_refl _) hkind
    omega
  | succ fuel ih =>
    intro r s hmem hkind hdepth hv
    have hs : d ++ r ∈ s := hv.keeps _ hmem (by simp [before_self])
    have hroot : d ++ r ≠ [] := by simp [h.root]
    have hscan := scandir_of_namei (h.plain.short r hmem)
      (h.leads s hv.tree hv.outer r hs (by simp [hkind])) hkind
    obtain ⟨t, ht, hpassed⟩ :=
      unlinkEntries_spec h ih hdepth hv [] (alphasort (children s (d ++ r))) none rfl (.nil hv.tree)
    have hw := hpassed.within
    have hempty : (∀ p, sys.permits p) → ∀ n, d ++ r ++ [n] ∉ t := by
      intro hperm n hn
      have hchild : n ∈ alphasort (children s (d ++ r)) :=
        (List.mem_insertionSort _).2 (mem_children.2 (hw.sub hn))
      exact hpassed.gone n hchild hperm _ hn (List.prefix_refl _)
    have hpar : r ≠ [] → d ++ r.dropLast ∈ t := by
      intro hr
      obtain ⟨r', n, rfl⟩ := (List.eq_nil_or_concat' r).resolve_left hr
      rw [← List.append_assoc] at hs hw
      rw [List.dropLast_concat]
      exact hw.frame _ (hv.tree.parent _ n hs).1 (not_prefix_of_concat (d ++ r') n)
    have he := h.entry_below hw.tree (hw.outer hv.outer) hmem hpar
    obtain ⟨hw', hc⟩ := rmdir_within hw.tree hroot hkind hempty he
    refine ⟨_, ?_, hw.trans hw', hc⟩
    rw [unlinkdir, hscan]
    simp only [ht]
    rfl

lemma entry_eq_some (h : entry sys files dir = some d) :
    ∃ xs p n, dir = xs ++ [n] ∧ d = p ++ [n] ∧ tooLong (xs ++ [n]) = false ∧
      namei sys.kind files 40 xs = some p ∧ p ++ [n] ∈ files := by
  rcases List.eq_nil_or_concat' dir with rfl | ⟨xs, n, rfl⟩
  · simp [entry] at h
  · cases hlong : tooLong (xs ++ [n]) with
    | true => simp [entry, hlong] at h
    | false =>
      cases hp : namei sys.kind files 40 xs with
      | none => simp [entry, hlong, hp] at h
      | some p =>
        rw [entry_concat hlong hp] at h
        split_ifs at h with hmem
        exact ⟨xs, p, n, rfl, (Option.some.inj h).symm, hlong, hp, hmem⟩

/-- No link below the directory leads to a directory. -/
lemma link_closed (ht : Tree sys.kind files) (hplain : Plain sys files dir d)
    (he : entry sys files dir = some d) {target rest c : Path} {j : ℕ} (hmem : d ++ r ∈ files)
    (hlink : sys.kind (d ++ r) = .link target) (hc : sys.kind c = .dir) :
    namei sys.kind files j (target ++ rest) ≠ some c := by
  intro hj
  obtain ⟨xs, p, n, rfl, rfl, -, hp, hpn⟩ := entry_eq_some he
  obtain ⟨f, hf, hmode⟩ := Option.map_eq_some_iff.1 (hplain.link r target hmem hlink)
  have hfile : sys.kind f ≠ .dir := by
    intro hdir
    rw [hdir] at hmode
    cases hmode
  rw [resolve, hplain.short r hmem] at hf
  have hf' : namei sys.kind files 40 (xs ++ [n] ++ r) = some f :=
    namei_mono List.filter_sublist.subset hf
  rw [List.append_assoc] at hf' hmem hlink
  obtain ⟨k, hk⟩ := namei_link ht (ht.parent p n hpn).2 hmem hlink hp hf'
  cases rest with
  | nil =>
    rw [List.append_nil] at hj
    exact hfile (namei_unique hk hj ▸ hc)
  | cons m rest =>
    obtain ⟨c', hc', hm⟩ := namei_append_cons hj
    exact hfile (namei_unique hk hc' ▸ (ht.parent c' m hm).2)

lemma site_of_plain (ht : Tree sys.kind files) (hkind : sys.kind d = .dir)
    (hplain : Plain sys files dir d) (he : entry sys files dir = some d) :
    Site sys files dir d := by
  have hclosed : ∀ r target rest c j, d ++ r ∈ files → sys.kind (d ++ r) = .link target →
      sys.kind c = .dir → namei sys.kind files j (target ++ rest) ≠ some c :=
    fun r target rest c j => link_closed ht hplain he
  obtain ⟨xs, p, n, rfl, rfl, hshort, hp, hpn⟩ := entry_eq_some he
  have hroot : p ++ [n] ≠ [] := by simp
  have houtside := namei_outside hclosed hkind hroot (not_prefix_of_concat p n)
    (ht.parent p n hpn).2 hp
  have hparent : ∀ s, (∀ q ∈ files, ¬p ++ [n] <+: q → q ∈ s) →
      namei sys.kind s 40 xs = some p := by
    intro s hout
    refine namei_mono ?_ houtside
    intro q hq
    obtain ⟨hq, hpre⟩ := List.mem_filter.1 hq
    exact hout q hq (of_decide_eq_true hpre)
  exact ⟨ht, hroot, hplain, fun s hs hout => leads_of_parent hs (hparent s hout),
    fun s _ hout => entry_concat hshort (hparent s hout)⟩

lemma scandir_of_entry (hdir : dir ≠ []) (he : entry sys files dir = none) :
    scandir sys files dir = none := by
  obtain ⟨xs, n, rfl⟩ := (List.eq_nil_or_concat' dir).resolve_left hdir
  rw [scandir, resolve]
  split_ifs with hlong
  · rfl
  · cases hr : namei sys.kind files 40 (xs ++ [n]) with
    | none => rfl
    | some q =>
      obtain ⟨c, hc, hn⟩ := namei_append_cons hr
      rw [entry_concat (by simpa using hlong) hc, if_pos hn] at he
      cases he

end Below

/-- When the path names a directory in which `stat` tells every entry's kind, and the stack has room
for a call for each of the directories that are in one another there, the deletion stays inside. -/
theorem unlinkdir_deleted (sys : System) (stack : CallStack) (files : List Path) (dir : Path)
    (ht : Tree sys.kind files) (hdir : dir ≠ []) (hcall : 0 < stack.calls)
    (hplain : ∀ d ∈ entry sys files dir, sys.kind d = .dir ∧ Plain sys files dir d)
    (hdeep : ∀ d ∈ entry sys files dir, ∀ q ∈ files, d <+: q → sys.kind q = .dir →
      q.length < d.length + stack.calls) :
    Deleted sys stack files dir := by
  cases he : entry sys files dir with
  | none =>
    refine ⟨files, ?_, fun _ _ => Iff.rfl, fun _ => he⟩
    obtain ⟨fuel, hfuel⟩ := Nat.exists_eq_add_of_le' hcall
    rw [hfuel, unlinkdir, scandir_of_entry hdir he]
  | some d =>
    obtain ⟨hkind, hp⟩ := hplain d he
    have hsite := site_of_plain ht hkind hp he
    have hmem : d ++ [] ∈ files := by
      obtain ⟨xs, p, n, -, rfl, -, -, hmem⟩ := entry_eq_some he
      rwa [List.append_nil]
    have hv : Visiting sys files d (d ++ []) files :=
      ⟨List.Subset.refl files, ht, fun p hp _ => hp⟩
    have hdepth : ∀ q ∈ files, d ++ [] <+: q → sys.kind q = .dir →
        q.length < (d ++ []).length + stack.calls := by
      rw [List.append_nil]
      exact hdeep d he
    obtain ⟨t, hrun, hw, hc⟩ :=
      unlinks hsite stack.calls [] files hmem (by rwa [List.append_nil]) hdepth hv
    rw [List.append_nil] at hrun hw hc
    refine ⟨t, hrun, fun q hq => ⟨fun h => hw.sub h, fun h => hw.frame q h (hq d he)⟩, ?_⟩
    intro hperm
    have hout : ∀ p ∈ files, ¬d <+: p → p ∈ t := fun p hp hpre => hw.frame p hp hpre
    rw [hsite.entry t hw.tree hout, if_neg fun hd => hc hperm d hd (List.prefix_refl d)]

/-- A directory `d` with a file, a link and a directory in it, and a directory `o` with a file to
which the link leads. -/
def treeFiles : List Path :=
  [[], [['d']], [['d'], ['a']], [['d'], ['l']], [['d'], ['s']], [['d'], ['s'], ['b']], [['o']],
    [['o'], ['f']]]

/-- The link of `treeFiles` leads to `target`. -/
def treeSystem (target : Path) : System where
  kind q :=
    if q = [] ∨ q = [['d']] ∨ q = [['d'], ['s']] ∨ q = [['o']] then .dir
    else if q = [['d'], ['l']] then .link target
    else .file
  permits _ := true

theorem treeFiles_tree (target : Path) : Tree (treeSystem target).kind treeFiles := by
  refine Tree.of_forall (by decide) (by decide) ?_
  simp [treeSystem, treeFiles]

/-- Eight MiB, and what a call takes at the least. -/
def usualStack : CallStack := ⟨2 ^ 23, 2 ^ 16 + 144⟩

theorem unlinkdir_deleted_fileLink :
    Deleted (treeSystem [['o'], ['f']]) usualStack treeFiles [['d']] := by
  have hentry : entry (treeSystem [['o'], ['f']]) treeFiles [['d']] = some [['d']] := by
    decide +kernel
  refine unlinkdir_deleted _ _ _ _ (treeFiles_tree _) (by decide) (by decide) ?_ ?_
  · intro d hd
    obtain rfl : [['d']] = d := Option.some.inj (hentry.symm.trans hd)
    refine ⟨by decide, plain_of_forall ?_⟩
    decide +kernel
  · intro d hd
    obtain rfl : [['d']] = d := Option.some.inj (hentry.symm.trans hd)
    decide +kernel

theorem unlinkdir_through_link : ¬Deleted (treeSystem [['o']]) usualStack treeFiles [['d']] := by
  rintro ⟨files', hrun, hframe, -⟩
  have hcalls : usualStack.calls = 124 + 3 := by decide
  have hleft : unlinkdir (treeSystem [['o']]) (124 + 3) treeFiles [['d']] =
      .ok [[], [['d']], [['d'], ['l']], [['o']]] := rfl
  rw [hcalls, hleft] at hrun
  cases hrun
  have hmem := (hframe [['o'], ['f']] (by decide)).2 (by decide)
  exact absurd hmem (by decide)

end WebTester.Fs
