import WebTester.UnlinkDir

/-!
# A file system with contents

The files with what they are, and the calls that the server makes on them. A call fails only for
what is in its paths: there is room, and everything is permitted. What the root is to the names that
are resolved, the directory `[]`, has no path of its own. The target of a link is an absolute path,
as the link may get another place.
-/
namespace WebTester.Fs
open CString FileTree

/-- What a path names. Of the mode of a file only the permissions are kept. -/
inductive Node
  | dir (perms : ℕ)
  | file (perms : ℕ) (content : List UInt8)
  | link (target : Path)
  | socket (perms : ℕ)
  deriving DecidableEq, Repr

namespace Node

def kind : Node → Kind CStr
  | .dir _ => .dir
  | .file _ _ => .file
  | .link target => .link target
  | .socket _ => .socket

/-- The permissions of a link are never asked. -/
def perms : Node → ℕ
  | .dir m | .file m _ | .socket m => m
  | .link _ => 0

def content : Node → List UInt8
  | .file _ c => c
  | _ => []

def setPerms (m : ℕ) : Node → Node
  | .dir _ => .dir m
  | .file _ c => .file m c
  | .link target => .link target
  | .socket _ => .socket m

def setContent (c : List UInt8) : Node → Node
  | .file m _ => .file m c
  | x => x

@[simp] theorem kind_setPerms (m : ℕ) (x : Node) : (x.setPerms m).kind = x.kind := by
  cases x <;> rfl

@[simp] theorem kind_setContent (c : List UInt8) (x : Node) : (x.setContent c).kind = x.kind := by
  cases x <;> rfl

end Node

structure Volume where
  files : List Path
  node : Path → Node
  tree : Tree (fun p => (node p).kind) files

namespace Volume

/-- As `unlinkdir` sees it. -/
def system (v : Volume) : System where
  kind p := (v.node p).kind
  permits _ := true

/-- Used below to decide whether a file is there. -/
local instance lawfulBEq_path : LawfulBEq Path := inferInstance

def get (v : Volume) (q : Path) : Option Node := if q ∈ v.files then some (v.node q) else none

/-- A file changes, but not what kind of file it is. -/
def change (v : Volume) (q : Path) (f : Node → Node) (hf : ∀ x, (f x).kind = x.kind) : Volume where
  files := v.files
  node p := if p = q then f (v.node p) else v.node p
  tree := by
    have hkind : (fun p => (if p = q then f (v.node p) else v.node p).kind)
        = fun p => (v.node p).kind := by
      funext p
      split
      · rw [hf]
      · rfl
    rw [hkind]
    exact v.tree

/-- A file is added. -/
def create (v : Volume) (p : Path) (n : CStr) (x : Node)
    (hp : p ∈ v.files ∧ (v.node p).kind = .dir) (hnew : p ++ [n] ∉ v.files) : Volume where
  files := (p ++ [n]) :: v.files
  node := Function.update v.node (p ++ [n]) x
  tree := by
    have hold : ∀ q ∈ v.files, Function.update v.node (p ++ [n]) x q = v.node q := by
      intro q hq
      refine Function.update_of_ne ?_ _ _
      rintro rfl
      exact hnew hq
    refine Tree.of_forall (List.nodup_cons.2 ⟨hnew, v.tree.nodup⟩)
      (List.mem_cons_of_mem _ v.tree.root) fun q hq hne => ?_
    rcases List.mem_cons.1 hq with rfl | hq
    · rw [List.dropLast_concat, hold p hp.1]
      exact ⟨List.mem_cons_of_mem _ hp.1, hp.2⟩
    · obtain ⟨q, m, rfl⟩ := (List.eq_nil_or_concat' q).resolve_left hne
      obtain ⟨hmem, hdir⟩ := v.tree.parent q m hq
      rw [List.dropLast_concat, hold q hmem]
      exact ⟨List.mem_cons_of_mem _ hmem, hdir⟩

/-- The directory and the name that a path gives for a new file. -/
def place (v : Volume) (path : Path) :
    Option { q : Path × CStr // q.1 ∈ v.files ∧ (v.node q.1).kind = .dir } :=
  if tooLong path then none
  else path.getLast?.bind fun n => (namei v.system.kind v.files 40 path.dropLast).bind fun p =>
    if h : p ∈ v.files ∧ (v.node p).kind = .dir then some ⟨(p, n), h⟩ else none

/-- A new file, which must not be there. -/
def add (v : Volume) (path : Path) (x : Node) : Option (Volume × Path) :=
  (v.place path).bind fun q =>
    if h : q.1.1 ++ [q.1.2] ∈ v.files then none
    else some (v.create q.1.1 q.1.2 x q.2 h, q.1.1 ++ [q.1.2])

/-! ## The calls -/

def mkdir (v : Volume) (path : Path) (mode : ℕ) : Option Volume :=
  (v.add path (.dir mode)).map Prod.fst

def chmod (v : Volume) (path : Path) (mode : ℕ) : Volume :=
  match resolve v.system v.files path with
  | some q => v.change q (Node.setPerms mode) (Node.kind_setPerms mode)
  | none => v

/-- `link`, which does not follow a link. -/
def link (v : Volume) (old new : Path) : Volume :=
  match entry v.system v.files old with
  | some p =>
    if (v.node p).kind = .dir then v else ((v.add new (v.node p)).map Prod.fst).getD v
  | none => v

/-- `fopen` for writing: it may fail. What a link gives that leads nowhere, and what sockets and
the like give, is not said. A new file gets the permissions `mask`. -/
def openWrite (mask : ℕ) (v : Volume) (path : Path) : Option (Option (Volume × Path)) :=
  match resolve v.system v.files path with
  | some q =>
    match v.node q with
    | .file _ _ => some (some (v.change q (Node.setContent []) (Node.kind_setContent []), q))
    | .dir _ => some none
    | _ => none
  | none =>
    if (entry v.system v.files path).isSome then none else some (v.add path (.file mask []))

/-! ## What the calls do -/

variable {v w : Volume} {p q path : Path} {n : CStr} {x : Node}

theorem mem_files_iff : q ∈ v.files ↔ v.get q ≠ none := by
  simp [get]

theorem get_eq_some : v.get q = some x ↔ q ∈ v.files ∧ v.node q = x := by
  simp [get]

/-- What is below a path is in directories. -/
theorem get_dir_of_append {r : Path} (h : v.get (p ++ n :: r) ≠ none) :
    ∃ m, v.get p = some (.dir m) := by
  have hmem := mem_files_iff.2 h
  have hdir := v.tree.dir_of_append hmem
  cases hx : v.node p with
  | dir m => exact ⟨m, get_eq_some.2 ⟨v.tree.mem_of_append hmem, hx⟩⟩
  | file | link | socket =>
    rw [hx] at hdir
    cases hdir

@[simp] theorem get_change (f : Node → Node) (hf : ∀ x, (f x).kind = x.kind) :
    (v.change p f hf).get q = if q = p then (v.get q).map f else v.get q := by
  by_cases hq : q = p <;> by_cases hmem : q ∈ v.files <;> simp_all [get, change]

theorem get_create (hp : p ∈ v.files ∧ (v.node p).kind = .dir) (hnew : p ++ [n] ∉ v.files) :
    (v.create p n x hp hnew).get = Function.update v.get (p ++ [n]) (some x) := by
  funext q
  by_cases hq : q = p ++ [n]
  · subst hq
    simp [get, create]
  · simp [get, create, hq]

/-- A path leads to what it names, when that is not a link. -/
theorem resolve_of_get (h : v.get q = some x) (hlink : ∀ target, x ≠ .link target)
    (hshort : tooLong q = false) : resolve v.system v.files q = some q := by
  obtain ⟨hmem, hx⟩ := get_eq_some.1 h
  have hkind : ∀ target, (v.node ([] ++ q)).kind ≠ .link target := by
    intro target hk
    rw [List.nil_append, hx] at hk
    cases x with
    | link t => exact hlink t rfl
    | dir | file | socket => cases hk
  rw [resolve, hshort, if_neg (by simp), namei_eq]
  exact walk_of_mem v.tree _ hmem hkind

theorem namei_of_dir {m : ℕ} (h : v.get p = some (.dir m)) :
    namei v.system.kind v.files 40 p = some p := by
  obtain ⟨hmem, hx⟩ := get_eq_some.1 h
  rw [namei_eq]
  have hlink : ∀ target, v.system.kind p ≠ .link target := by simp [system, hx, Node.kind]
  exact walk_of_mem v.tree _ (show [] ++ p ∈ v.files from hmem) hlink

theorem entry_of_dir {m : ℕ} (h : v.get p = some (.dir m)) (hshort : tooLong (p ++ [n]) = false) :
    entry v.system v.files (p ++ [n])
      = if v.get (p ++ [n]) = none then none else some (p ++ [n]) := by
  rw [entry_concat hshort (namei_of_dir h)]
  by_cases hmem : p ++ [n] ∈ v.files <;> simp [get, hmem]

theorem entry_of_get (h : v.get q = some x) (hq : q ≠ []) (hshort : tooLong q = false) :
    entry v.system v.files q = some q := by
  obtain ⟨p, n, rfl⟩ := (List.eq_nil_or_concat' q).resolve_left hq
  obtain ⟨m, hdir⟩ := get_dir_of_append (v := v) (p := p) (n := n) (r := []) (by simp [h])
  rw [entry_of_dir hdir hshort, if_neg (by simp [h])]

theorem scandir_of_get {m : ℕ} (h : v.get q = some (.dir m)) (hshort : tooLong q = false) :
    scandir v.system v.files q = some (alphasort (children v.files q)) := by
  rw [scandir, resolve_of_get h (by simp) hshort, Option.bind_some, if_pos]
  simp [system, (get_eq_some.1 h).2, Node.kind]

theorem mem_children_iff : n ∈ children v.files q ↔ v.get (q ++ [n]) ≠ none := by
  rw [mem_children, mem_files_iff]

/-- A new file in a directory. -/
theorem add_of_get {m : ℕ} (h : v.get p = some (.dir m)) (hnew : v.get (p ++ [n]) = none)
    (hshort : tooLong (p ++ [n]) = false) (x : Node) :
    ∃ w, v.add (p ++ [n]) x = some (w, p ++ [n]) ∧
      w.get = Function.update v.get (p ++ [n]) (some x) := by
  obtain ⟨hmem, hx⟩ := get_eq_some.1 h
  have hp : p ∈ v.files ∧ (v.node p).kind = .dir := ⟨hmem, by rw [hx]; rfl⟩
  have hnot : p ++ [n] ∉ v.files := by simpa [mem_files_iff] using hnew
  have hplace : v.place (p ++ [n]) = some ⟨(p, n), hp⟩ := by
    simp [place, hshort, namei_of_dir h, hp]
  refine ⟨v.create p n x hp hnot, ?_, get_create hp hnot⟩
  rw [add, hplace, Option.bind_some, dif_neg hnot]

/-- A file that is there already is not added. -/
theorem add_of_mem (h : v.get (p ++ [n]) ≠ none) (x : Node) : v.add (p ++ [n]) x = none := by
  obtain ⟨m, hdir⟩ := get_dir_of_append (v := v) (p := p) (n := n) (r := []) h
  rw [add, Option.bind_eq_none_iff]
  intro q hq
  rw [dif_pos]
  simp only [place, List.getLast?_concat, List.dropLast_concat, Option.bind_some,
    namei_of_dir hdir] at hq
  split_ifs at hq
  cases hq
  exact mem_files_iff.2 h

theorem mkdir_of_mem (h : v.get (p ++ [n]) ≠ none) (mode : ℕ) : v.mkdir (p ++ [n]) mode = none := by
  rw [mkdir, add_of_mem h, Option.map_none]

theorem mkdir_of_get {m : ℕ} (h : v.get p = some (.dir m)) (hnew : v.get (p ++ [n]) = none)
    (hshort : tooLong (p ++ [n]) = false) (mode : ℕ) :
    ∃ w, v.mkdir (p ++ [n]) mode = some w ∧
      w.get = Function.update v.get (p ++ [n]) (some (.dir mode)) := by
  obtain ⟨w, hw, hget⟩ := add_of_get h hnew hshort (.dir mode)
  exact ⟨w, by rw [mkdir, hw, Option.map_some], hget⟩

theorem chmod_of_get (h : v.get q = some x) (hlink : ∀ target, x ≠ .link target)
    (hshort : tooLong q = false) (mode : ℕ) :
    (v.chmod q mode).get = Function.update v.get q (some (x.setPerms mode)) := by
  funext p
  rw [chmod, resolve_of_get h hlink hshort]
  by_cases hp : p = q
  · subst hp
    simp [h]
  · simp [hp]

/-- A link becomes a link of another name. -/
theorem link_of_get {target : Path} {m : ℕ} (h : v.get q = some (.link target)) (hq : q ≠ [])
    (hshort : tooLong q = false) (hdir : v.get p = some (.dir m))
    (hshort' : tooLong (p ++ [n]) = false) :
    (v.link q (p ++ [n])).get
      = Function.update v.get (p ++ [n]) ((v.get (p ++ [n])).or (some (.link target))) := by
  obtain ⟨-, hx⟩ := get_eq_some.1 h
  rw [link, entry_of_get h hq hshort]
  simp only [hx, Node.kind, reduceCtorEq, if_false]
  cases hnew : v.get (p ++ [n]) with
  | none =>
    obtain ⟨w, hw, hget⟩ := add_of_get hdir hnew hshort' (.link target)
    rw [hw]
    exact hget
  | some y =>
    rw [add_of_mem (by simp [hnew]), Option.map_none, Option.getD_none, Option.some_or, ← hnew,
      Function.update_eq_self]

/-- Nothing is found where a file would be new. -/
theorem resolve_of_new {m : ℕ} (hdir : v.get p = some (.dir m)) (hnew : v.get (p ++ [n]) = none) :
    resolve v.system v.files (p ++ [n]) = none := by
  rw [resolve]
  split
  · rfl
  · cases hr : namei v.system.kind v.files 40 (p ++ [n]) with
    | none => rfl
    | some r =>
      obtain ⟨c, hc, hmem⟩ := namei_append_cons hr
      obtain rfl := namei_unique hc (namei_of_dir hdir)
      exact absurd hnew (mem_files_iff.1 hmem)

theorem openWrite_of_new {m : ℕ} (hdir : v.get p = some (.dir m)) (hnew : v.get (p ++ [n]) = none)
    (hshort : tooLong (p ++ [n]) = false) (mask : ℕ) :
    ∃ w, openWrite mask v (p ++ [n]) = some (some (w, p ++ [n])) ∧
      w.get = Function.update v.get (p ++ [n]) (some (.file mask [])) := by
  obtain ⟨w, hw, hget⟩ := add_of_get hdir hnew hshort (.file mask [])
  refine ⟨w, ?_, hget⟩
  have hentry := entry_of_dir hdir hshort
  rw [if_pos hnew] at hentry
  rw [openWrite, resolve_of_new hdir hnew]
  simp only [hentry, Option.isSome_none, Bool.false_eq_true, if_false, hw]

theorem openWrite_of_get {m : ℕ} {c : List UInt8} (h : v.get q = some (.file m c))
    (hshort : tooLong q = false) (mask : ℕ) :
    ∃ w, openWrite mask v q = some (some (w, q)) ∧
      w.get = Function.update v.get q (some (.file m [])) := by
  rw [openWrite, resolve_of_get h (by simp) hshort]
  simp only [(get_eq_some.1 h).2]
  refine ⟨_, rfl, ?_⟩
  funext p
  by_cases hp : p = q
  · subst hp
    simp [h, Node.setContent]
  · simp [hp]

end Volume

end WebTester.Fs
