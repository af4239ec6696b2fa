import WebTester.Volume

/-!
# Copying of directories

`fcopydir` copies a directory into another one, which `fmkdir` makes if it is not there: directories
by calling itself, regular files by `copyfile`, links as links. It looks at no return code. `fmkdir`
calls itself for every part of a path; no call of these takes more than a frame of the stack, and
the fuel is the number of frames. The targets of links are absolute.
-/
namespace WebTester.Fs
open CString FileTree

/-! ## The code -/

/-- `FS_COPY_BUF_SIZE`. -/
def fsCopyBufSize : ℕ := 65535

/-- `STAT_PERMS`. -/
def statPerms (mode : ℕ) : ℕ := mode &&& 0x1FF

namespace Volume

/-- `mkdir` and `chmod` at the end of `fmkdir`. -/
def makeDir (v : Volume) (dir : Path) (mode : ℕ) : Volume :=
  match v.mkdir dir mode with
  | some w => w.chmod dir mode
  | none => v

/-- `fmkdir`: the part before the last slash first. The names come from the last one on. -/
def fmkdirFrom (mode : ℕ) (v : Volume) : List CStr → Volume
  | [] => v
  | n :: ns => (fmkdirFrom mode v ns).makeDir (ns.reverse ++ [n]) mode

def fmkdir (v : Volume) (dir : Path) (mode : ℕ) : Volume := fmkdirFrom mode v dir.reverse

/-- The loop of `copyfile`: what is written of what is not read yet. -/
def copyLoop : List UInt8 → List UInt8
  | [] => []
  | b :: rest => (b :: rest).take fsCopyBufSize ++ copyLoop ((b :: rest).drop fsCopyBufSize)
termination_by rest => rest.length
decreasing_by
  simp only [List.length_drop, List.length_cons, fsCopyBufSize]
  omega

/-- `copyfile`. Only regular files are read. -/
def copyfile (mask : ℕ) (v : Volume) (src dst : Path) : Option (Volume × ℤ) :=
  match resolve v.system v.files src with
  | none => some (v, -1)
  | some p =>
    match v.node p with
    | .file _ _ => (v.openWrite mask dst).map fun opened =>
      match opened with
      | none => (v, -1)
      | some (w, q) =>
        -- a file that is copied onto itself is empty now
        let out := copyLoop (w.node p).content
        let w' := w.change q (Node.setContent out) (Node.kind_setContent out)
        (w'.chmod dst (w.node p).perms, 0)
    | _ => none

/-- An entry in the loop of `fcopydir`. A path that does not fit into its buffer is cut. -/
def copyEntry (mask : ℕ) (fcopydir : Volume → Path → Path → Option Volume) (src dst : Path)
    (v : Volume) (name : CStr) : Option Volume :=
  if tooLong (src ++ [name]) ∨ tooLong (dst ++ [name]) then none
  else (entry v.system v.files (src ++ [name])).bind fun p =>
    match v.node p with
    | .link _ => some (v.link (src ++ [name]) (dst ++ [name]))
    | .dir _ => fcopydir v (src ++ [name]) (dst ++ [name])
    | .file mode _ => (v.copyfile mask (src ++ [name]) (dst ++ [name])).map fun r =>
      r.1.chmod (dst ++ [name]) (statPerms mode)
    | .socket _ => some v

/-- `fcopydir`, of a directory: of anything else the listing is not initialised. There must be room
for the calls of `fmkdir`, one for every slash and one more. -/
def fcopydir (mask : ℕ) : ℕ → Volume → Path → Path → Option Volume
  | 0, _, _, _ => none
  | fuel + 1, v, src, dst =>
    if fuel ≤ dst.length then none
    else (entry v.system v.files src).bind fun p =>
      let v := v.fmkdir dst (statPerms (v.node p).perms)
      (scandir v.system v.files src).bind fun names =>
        names.foldlM (copyEntry mask (fcopydir mask fuel) src dst) v

end Volume

/-! ## What is copied -/

/-- What is copied over what was there: a directory is kept, a link is not replaced. -/
def Node.copyOver (old : Option Node) : Node → Option Node
  | .dir m => old.or (some (.dir (statPerms m)))
  | .file m c => some (.file (statPerms m) c)
  | .link target => old.or (some (.link target))
  | .socket _ => old

/-- A directory is not copied over a file, nor a file over anything but a file. -/
def Node.Fits (old : Option Node) : Node → Prop
  | .dir _ => ∀ x ∈ old, x.kind = .dir
  | .file _ _ => ∀ x ∈ old, x.kind = .file
  | .link _ => True
  | .socket _ => True

instance (old : Option Node) : (x : Node) → Decidable (x.Fits old)
  | .dir _ => inferInstanceAs (Decidable (∀ x ∈ old, x.kind = .dir))
  | .file _ _ => inferInstanceAs (Decidable (∀ x ∈ old, x.kind = .file))
  | .link _ => inferInstanceAs (Decidable True)
  | .socket _ => inferInstanceAs (Decidable True)

/-- What is at a path below the copy. -/
def overlay (v : Volume) (src dst r : Path) : Option Node :=
  match v.get (src ++ r) with
  | some x => x.copyOver (v.get (dst ++ r))
  | none => v.get (dst ++ r)

/-- What a copy needs: two directories of which none is in the other, the second one perhaps only
to be made, with files in it that fit, and with paths that are not too long. -/
structure Ready (v : Volume) (src dst : Path) : Prop where
  apart : ¬src <+: dst ∧ ¬dst <+: src
  way : ∀ p, p <+: dst → ∀ x ∈ v.get p, x.kind = .dir
  fits : ∀ r, ∀ x ∈ v.get (src ++ r), x.Fits (v.get (dst ++ r))
  short : ∀ r, v.get (src ++ r) ≠ none →
    tooLong (src ++ r) = false ∧ tooLong (dst ++ r) = false

theorem ready_of_forall {v : Volume} {src dst : Path} (happart : ¬src <+: dst ∧ ¬dst <+: src)
    (hway : ∀ p ∈ dst.inits, ∀ x ∈ v.get p, x.kind = .dir)
    (h : ∀ q ∈ v.files, src <+: q → tooLong q = false ∧ tooLong (dst ++ q.drop src.length) = false ∧
      (v.node q).Fits (v.get (dst ++ q.drop src.length))) : Ready v src dst where
  apart := happart
  way p hp := hway p ((List.mem_inits p dst).2 hp)
  fits r x hx := by
    obtain ⟨hmem, rfl⟩ := Volume.get_eq_some.1 hx
    simpa using (h _ hmem (List.prefix_append src r)).2.2
  short r hne := by
    have hmem := h _ (Volume.mem_files_iff.2 hne) (List.prefix_append src r)
    rw [List.drop_left] at hmem
    exact ⟨hmem.1, hmem.2.1⟩

/-- The copy is there, and nothing else has changed but that the way to it was made. -/
structure Copied (v w : Volume) (src dst : Path) : Prop where
  inside : ∀ r, w.get (dst ++ r) = overlay v src dst r
  outside : ∀ q, ¬dst <+: q → (q <+: dst → v.get q ≠ none) → w.get q = v.get q
  made : ∀ q m, q <+: dst → v.get q = none → v.get src = some (.dir m) →
    w.get q = some (.dir (statPerms m))

/-! ## The parts -/

theorem text_append (p q : Path) : text (p ++ q) = text p ++ text q := by
  simp [text]

theorem tooLong_of_le {p q : Path} (h : p <+: q) (hq : tooLong q = false) :
    tooLong p = false := by
  obtain ⟨r, rfl⟩ := h
  rw [tooLong, text_append, List.length_append, decide_eq_false_iff_not] at hq
  rw [tooLong, decide_eq_false_iff_not]
  omega

namespace Volume

variable {v w : Volume} {p q src dst dir : Path} {n : CStr} {x : Node}

theorem exists_dir_of_kind (h : v.get p = some x) (hx : x.kind = .dir) :
    ∃ m, v.get p = some (.dir m) := by
  cases x with
  | dir m => exact ⟨m, h⟩
  | file | link | socket => cases hx

theorem get_root : v.get [] ≠ none := mem_files_iff.1 v.tree.root

theorem makeDir_of_mem (h : v.get (p ++ [n]) ≠ none) (mode : ℕ) :
    v.makeDir (p ++ [n]) mode = v := by
  rw [makeDir, mkdir_of_mem h]

theorem get_makeDir {m : ℕ} (h : v.get p = some (.dir m)) (hnew : v.get (p ++ [n]) = none)
    (hshort : tooLong (p ++ [n]) = false) (mode : ℕ) :
    (v.makeDir (p ++ [n]) mode).get = Function.update v.get (p ++ [n]) (some (.dir mode)) := by
  obtain ⟨w, hw, hget⟩ := mkdir_of_get h hnew hshort mode
  have hdir : w.get (p ++ [n]) = some (.dir mode) := by rw [hget, Function.update_self]
  simp only [makeDir, hw]
  rw [chmod_of_get hdir (by simp) hshort, hget, Function.update_idem]
  rfl

theorem fmkdir_concat (v : Volume) (p : Path) (n : CStr) (mode : ℕ) :
    v.fmkdir (p ++ [n]) mode = (v.fmkdir p mode).makeDir (p ++ [n]) mode := by
  simp [fmkdir, fmkdirFrom]

/-- The whole way to a directory is made. -/
theorem get_fmkdir (hway : ∀ p, p <+: dir → ∀ x ∈ v.get p, x.kind = .dir)
    (hshort : tooLong dir = false) (mode : ℕ) (q : Path) :
    (v.fmkdir dir mode).get q
      = if q <+: dir then (v.get q).or (some (.dir mode)) else v.get q := by
  induction dir using List.reverseRecOn generalizing q with
  | nil =>
    split_ifs with hq
    · obtain rfl := List.prefix_nil.1 hq
      obtain ⟨x, hx⟩ := Option.ne_none_iff_exists'.1 (get_root (v := v))
      rw [hx, Option.some_or]
      exact hx
    · rfl
  | append_singleton dir n ih =>
    have hpre : dir <+: dir ++ [n] := List.prefix_append dir [n]
    have ih := ih (fun p hp => hway p (hp.trans hpre)) (tooLong_of_le hpre hshort)
    have hdir : ∃ m, (v.fmkdir dir mode).get dir = some (.dir m) := by
      rw [ih, if_pos (List.prefix_refl dir)]
      cases hx : v.get dir with
      | none => exact ⟨mode, rfl⟩
      | some x =>
        obtain ⟨m, hm⟩ := exists_dir_of_kind hx (hway dir hpre x hx)
        exact ⟨m, by rw [← hx, hm, Option.some_or]⟩
    have hold : (v.fmkdir dir mode).get (dir ++ [n]) = v.get (dir ++ [n]) := by
      rw [ih, if_neg (not_prefix_of_concat dir n)]
    obtain ⟨m, hm⟩ := hdir
    rw [fmkdir_concat]
    cases hx : v.get (dir ++ [n]) with
    | none =>
      rw [get_makeDir hm (hold.trans hx) hshort]
      by_cases hq : q = dir ++ [n]
      · subst hq
        simp [hx]
      · rw [Function.update_of_ne hq, ih]
        simp [List.prefix_concat_iff, hq]
    | some x =>
      rw [makeDir_of_mem (by simp [hold, hx]), ih]
      by_cases hq : q = dir ++ [n]
      · subst hq
        simp [hx, not_prefix_of_concat]
      · simp [List.prefix_concat_iff, hq]

theorem copyLoop_eq (content : List UInt8) : copyLoop content = content := by
  induction content using copyLoop.induct with
  | case1 => rw [copyLoop]
  | case2 b rest ih => rw [copyLoop, ih, List.take_append_drop]

/-- A file that is opened for writing is there and empty. -/
theorem openWrite_of_fits {m : ℕ} (hdir : v.get p = some (.dir m))
    (hfits : ∀ x ∈ v.get (p ++ [n]), x.kind = .file) (hshort : tooLong (p ++ [n]) = false)
    (mask : ℕ) : ∃ w k, v.openWrite mask (p ++ [n]) = some (some (w, p ++ [n])) ∧
      w.get = Function.update v.get (p ++ [n]) (some (.file k [])) := by
  cases hx : v.get (p ++ [n]) with
  | none =>
    obtain ⟨w, hw, hget⟩ := openWrite_of_new hdir hx hshort mask
    exact ⟨w, mask, hw, hget⟩
  | some x =>
    have hkind := hfits x hx
    cases x with
    | file k c =>
      obtain ⟨w, hw, hget⟩ := openWrite_of_get hx hshort mask
      exact ⟨w, k, hw, hget⟩
    | dir | link | socket => cases hkind

theorem copyfile_of_get {m k : ℕ} {c : List UInt8} (mask : ℕ) (hsrc : v.get src = some (.file m c))
    (hshort : tooLong src = false) (hdir : v.get p = some (.dir k))
    (hfits : ∀ x ∈ v.get (p ++ [n]), x.kind = .file) (hshort' : tooLong (p ++ [n]) = false)
    (hne : src ≠ p ++ [n]) : ∃ w, v.copyfile mask src (p ++ [n]) = some (w, 0) ∧
      w.get = Function.update v.get (p ++ [n]) (some (.file m c)) := by
  obtain ⟨u, j, hu, hget⟩ := openWrite_of_fits hdir hfits hshort' mask
  have hsrc' : u.get src = some (.file m c) := by rw [hget, Function.update_of_ne hne, hsrc]
  have hnode : u.node src = .file m c := (get_eq_some.1 hsrc').2
  rw [copyfile, resolve_of_get hsrc (by simp) hshort]
  simp only [(get_eq_some.1 hsrc).2, hu, Option.map_some, hnode, Node.content, Node.perms]
  refine ⟨_, rfl, ?_⟩
  rw [chmod_of_get (x := .file j c) ?_ (by simp) hshort']
  · funext q
    by_cases hq : q = p ++ [n]
    · subst hq
      simp [Node.setPerms]
    · simp [hget, hq]
  · simp [hget, Node.setContent, copyLoop_eq]

/-! ## An entry -/

theorem apart_append (h : ¬src <+: dst ∧ ¬dst <+: src) (p q : Path) : ¬dst ++ p <+: src ++ q := by
  intro hpre
  have hdst : dst <+: src ++ q := (List.prefix_append dst p).trans hpre
  rcases List.prefix_or_prefix_of_prefix hdst (List.prefix_append src q) with h' | h'
  · exact h.2 h'
  · exact h.1 h'

/-- What is not a directory is copied when its copy is in the place. -/
theorem copied_of_update (hx : v.get src = some x) (hleaf : x.kind ≠ .dir)
    (hw : w.get = Function.update v.get (p ++ [n]) (x.copyOver (v.get (p ++ [n])))) :
    Copied v w src (p ++ [n]) where
  inside r := by
    rw [hw, overlay]
    cases r with
    | nil => simp [hx]
    | cons k r =>
      have hnone : v.get (src ++ k :: r) = none := by
        by_contra hne
        obtain ⟨j, hj⟩ := get_dir_of_append hne
        obtain rfl : x = .dir j := Option.some.inj (hx.symm.trans hj)
        exact hleaf rfl
      rw [hnone, Function.update_of_ne (by simp)]
  outside q hq _ := by
    rw [hw, Function.update_of_ne]
    rintro rfl
    exact hq (List.prefix_refl _)
  made q j hq hnone hsrc := by
    obtain rfl : x = .dir j := Option.some.inj (hx.symm.trans hsrc)
    exact absurd rfl hleaf

/-- One turn of the loop. -/
theorem copyEntry_spec (mask : ℕ) (fcopydir : Volume → Path → Path → Option Volume) {m : ℕ}
    (hdir : v.get dst = some (.dir m)) (hx : v.get (src ++ [n]) = some x)
    (hfits : x.Fits (v.get (dst ++ [n]))) (hshort : tooLong (src ++ [n]) = false)
    (hshort' : tooLong (dst ++ [n]) = false) (hne : src ++ [n] ≠ dst ++ [n])
    (hrec : x.kind = .dir → ∃ w, fcopydir v (src ++ [n]) (dst ++ [n]) = some w ∧
      Copied v w (src ++ [n]) (dst ++ [n])) :
    ∃ w, copyEntry mask fcopydir src dst v n = some w ∧
      Copied v w (src ++ [n]) (dst ++ [n]) := by
  have hentry := entry_of_get hx (by simp) hshort
  rw [copyEntry, if_neg (by simp [hshort, hshort']), hentry, Option.bind_some,
    (get_eq_some.1 hx).2]
  cases x with
  | dir k => exact hrec rfl
  | file k c =>
    obtain ⟨w, hw, hget⟩ := copyfile_of_get mask hx hshort hdir hfits hshort' hne
    have hnew : w.get (dst ++ [n]) = some (.file k c) := by rw [hget, Function.update_self]
    simp only [hw, Option.map_some]
    refine ⟨_, rfl, copied_of_update hx (by simp [Node.kind]) ?_⟩
    rw [chmod_of_get hnew (by simp) hshort', hget, Function.update_idem]
    rfl
  | link target =>
    exact ⟨_, rfl, copied_of_update hx (by simp [Node.kind])
      (link_of_get hx (by simp) hshort hdir hshort')⟩
  | socket k =>
    refine ⟨v, rfl, copied_of_update hx (by simp [Node.kind]) ?_⟩
    rw [Node.copyOver, Function.update_eq_self]

/-! ## The loop -/

/-- The loop over the names has come so far. -/
structure Merged (v w : Volume) (src dst : Path) (done : List CStr) : Prop where
  self : w.get dst = v.get dst
  outside : ∀ q, ¬dst <+: q → w.get q = v.get q
  inside : ∀ n r, w.get (dst ++ n :: r)
    = if n ∈ done then overlay v src dst (n :: r) else v.get (dst ++ n :: r)

variable {u : Volume} {done : List CStr} {m : ℕ}

theorem get_ne_none_of_le (h : p <+: q) (hq : v.get q ≠ none) : v.get p ≠ none := by
  obtain ⟨r, rfl⟩ := h
  exact mem_files_iff.1 (v.tree.mem_of_append (mem_files_iff.2 hq))

theorem not_prefix_cons {k : CStr} {r : Path} (hk : k ≠ n) : ¬dst ++ [n] <+: dst ++ k :: r := by
  rw [List.prefix_append_right_inj, List.cons_prefix_cons]
  exact fun h => hk h.1.symm

theorem Merged.nil : Merged v v src dst [] where
  self := rfl
  outside _ _ := rfl
  inside _ _ := by simp

/-- What is to be copied has not changed. -/
theorem Merged.get_src (hm : Merged v w src dst done) (hapart : ¬src <+: dst ∧ ¬dst <+: src)
    (r : Path) : w.get (src ++ r) = v.get (src ++ r) := by
  refine hm.outside _ fun h => apart_append hapart [] r ?_
  rwa [List.append_nil]

theorem Merged.snoc (hm : Merged v w src dst done) (hapart : ¬src <+: dst ∧ ¬dst <+: src)
    (hdir : v.get dst = some (.dir m)) (hn : n ∉ done)
    (hc : Copied w u (src ++ [n]) (dst ++ [n])) : Merged v u src dst (done ++ [n]) where
  self := by
    rw [← hm.self]
    exact hc.outside dst (not_prefix_of_concat dst n) fun _ => by simp [hm.self, hdir]
  outside q hq := by
    rw [← hm.outside q hq]
    refine hc.outside q (fun h => hq ((List.prefix_append dst [n]).trans h)) fun h => ?_
    rcases List.prefix_concat_iff.1 h with rfl | h
    · exact absurd (List.prefix_append dst [n]) hq
    · exact get_ne_none_of_le h (by simp [hm.self, hdir])
  inside k r := by
    by_cases hk : k = n
    · subst hk
      have hin := hc.inside r
      simp only [overlay, List.append_assoc, List.singleton_append] at hin
      rw [hin, hm.get_src hapart, hm.inside, if_neg hn, if_pos (by simp), overlay]
    · have hout := hc.outside (dst ++ k :: r) (not_prefix_cons hk) fun h => by
        rw [List.prefix_append_right_inj, List.cons_prefix_cons] at h
        exact absurd h.1 hk
      rw [hout, hm.inside]
      simp [hk]

/-- A directory in the listing may be copied into its place. -/
theorem Ready.entry (hr : Ready v src dst) (hm : Merged v w src dst done) (hn : n ∉ done)
    (hx : v.get (src ++ [n]) = some x) (hkind : x.kind = .dir) :
    Ready w (src ++ [n]) (dst ++ [n]) where
  apart := by
    refine ⟨fun h => ?_, apart_append hr.apart [n] [n]⟩
    exact apart_append hr.apart.symm [n] [n] h
  way p hp y hy := by
    rcases List.prefix_concat_iff.1 hp with rfl | hp
    · rw [hm.inside n [], if_neg hn] at hy
      have hfits := hr.fits [n] x hx
      cases x with
      | dir k => exact hfits y hy
      | file | link | socket => cases hkind
    · by_cases hq : dst <+: p
      · obtain rfl := List.IsPrefix.eq_of_length_le hq hp.length_le
        exact hr.way dst hp y (by rwa [← hm.self])
      · exact hr.way p hp y (by rwa [← hm.outside p hq])
  fits r y hy := by
    rw [List.append_assoc, hm.get_src hr.apart] at hy
    rw [List.append_assoc, List.singleton_append, hm.inside, if_neg hn]
    exact hr.fits (n :: r) y hy
  short r hne := by
    rw [List.append_assoc, hm.get_src hr.apart] at hne
    simpa using hr.short (n :: r) hne

/-- There are frames for the directories in one another, and for making the last of them. -/
def Roomy (v : Volume) (src dst : Path) (fuel : ℕ) : Prop :=
  ∀ r m, v.get (src ++ r) = some (.dir m) → 2 * r.length + dst.length + 1 < fuel

theorem roomy_of_forall {v : Volume} {src dst : Path} {fuel : ℕ}
    (h : ∀ q ∈ v.files, src <+: q → 2 * (q.length - src.length) + dst.length + 1 < fuel) :
    Roomy v src dst fuel := by
  intro r m hr
  have hlt := h _ (get_eq_some.1 hr).1 (List.prefix_append src r)
  rwa [List.length_append, Nat.add_sub_cancel_left] at hlt

/-- What a call with some fuel does. -/
def Copies (mask fuel : ℕ) : Prop :=
  ∀ v src dst m, Ready v src dst → v.get src = some (.dir m) → Roomy v src dst fuel →
    ∃ w, fcopydir mask fuel v src dst = some w ∧ Copied v w src dst

variable {mask fuel : ℕ}

theorem foldlM_copyEntry (ih : Copies mask fuel) (hr : Ready v src dst)
    (hdir : v.get dst = some (.dir m)) (hroomy : Roomy v src dst (fuel + 1))
    {names : List CStr} (hnodup : (done ++ names).Nodup)
    (hnames : ∀ n ∈ names, v.get (src ++ [n]) ≠ none) (hm : Merged v w src dst done) :
    ∃ u, names.foldlM (copyEntry mask (fcopydir mask fuel) src dst) w = some u ∧
      Merged v u src dst (done ++ names) := by
  induction names generalizing w done with
  | nil => exact ⟨w, rfl, by simpa using hm⟩
  | cons n names ihnames =>
    have hn : n ∉ done := by
      rw [List.nodup_append] at hnodup
      exact fun h => hnodup.2.2 n h n (by simp) rfl
    obtain ⟨x, hx⟩ := Option.ne_none_iff_exists'.1 (hnames n (by simp))
    have hx' : w.get (src ++ [n]) = some x := (hm.get_src hr.apart [n]).trans hx
    have hold : w.get (dst ++ [n]) = v.get (dst ++ [n]) := by rw [hm.inside n [], if_neg hn]
    obtain ⟨hshort, hshort'⟩ := hr.short [n] (by simp [hx])
    have hne : src ++ [n] ≠ dst ++ [n] := by
      intro h
      exact apart_append hr.apart [n] [n] (h ▸ List.prefix_refl _)
    obtain ⟨u, hu, hc⟩ := copyEntry_spec mask (fcopydir mask fuel)
      (hm.self.trans hdir) hx' (by rw [hold]; exact hr.fits [n] x hx) hshort hshort' hne
      fun hkind => by
        obtain ⟨k, hk⟩ := exists_dir_of_kind hx' hkind
        refine ih w _ _ k (Ready.entry hr hm hn hx hkind) hk fun r j hj => ?_
        rw [List.append_assoc, hm.get_src hr.apart] at hj
        have hlt := hroomy (n :: r) j hj
        rw [List.length_cons] at hlt
        rw [List.length_append, List.length_singleton]
        omega
    rw [List.foldlM_cons, hu, Option.bind_eq_bind, Option.bind_some]
    have hnext := ihnames (by simpa using hnodup) (fun k hk => hnames k (by simp [hk]))
      (hm.snoc hr.apart hdir hn hc)
    simpa using hnext

theorem not_cons_prefix {r : Path} : ¬dst ++ n :: r <+: dst := by
  intro h
  have hle := h.length_le
  rw [List.length_append, List.length_cons] at hle
  omega

theorem get_fmkdir_src (hr : Ready v src dst) (hshort : tooLong dst = false) (mode : ℕ)
    (r : Path) : (v.fmkdir dst mode).get (src ++ r) = v.get (src ++ r) := by
  rw [get_fmkdir hr.way hshort, if_neg]
  exact fun h => hr.apart.1 ((List.prefix_append src r).trans h)

theorem get_fmkdir_below (hr : Ready v src dst) (hshort : tooLong dst = false) (mode : ℕ)
    (r : Path) : (v.fmkdir dst mode).get (dst ++ n :: r) = v.get (dst ++ n :: r) := by
  rw [get_fmkdir hr.way hshort, if_neg not_cons_prefix]

theorem get_fmkdir_dst (hr : Ready v src dst) (hshort : tooLong dst = false) (mode : ℕ) :
    (v.fmkdir dst mode).get dst = (v.get dst).or (some (.dir mode)) := by
  rw [get_fmkdir hr.way hshort, if_pos (List.prefix_refl dst)]

/-- The directory itself is made first. -/
theorem Ready.fmkdir (hr : Ready v src dst) (hm : v.get src = some (.dir m))
    (hshort : tooLong dst = false) (mode : ℕ) : Ready (v.fmkdir dst mode) src dst := by
  have hway : ∀ p, p <+: dst → ∀ x ∈ (v.fmkdir dst mode).get p, x.kind = .dir := by
    intro p hp x hx
    rw [get_fmkdir hr.way hshort, if_pos hp] at hx
    cases hy : v.get p with
    | none =>
      rw [hy, Option.none_or] at hx
      obtain rfl := Option.some.inj hx
      rfl
    | some y =>
      rw [hy, Option.some_or] at hx
      obtain rfl := Option.some.inj hx
      exact hr.way p hp y hy
  refine ⟨hr.apart, hway, fun r x hx => ?_, fun r hne => ?_⟩
  · rw [get_fmkdir_src hr hshort] at hx
    cases r with
    | nil =>
      rw [List.append_nil] at hx ⊢
      obtain rfl := Option.some.inj (hm.symm.trans hx)
      exact hway dst (List.prefix_refl dst)
    | cons n r =>
      rw [get_fmkdir_below hr hshort]
      exact hr.fits (n :: r) x hx
  · rw [get_fmkdir_src hr hshort] at hne
    exact hr.short r hne

/-- At the end of the loop. -/
theorem Merged.copied {names : List CStr} (hr : Ready v src dst) (hsrc : v.get src = some (.dir m))
    (hshort : tooLong dst = false) (hnames : ∀ n, n ∈ names ↔ v.get (src ++ [n]) ≠ none)
    (hm : Merged (v.fmkdir dst (statPerms m)) w src dst names) : Copied v w src dst where
  inside r := by
    cases r with
    | nil =>
      rw [List.append_nil, hm.self, get_fmkdir_dst hr hshort, overlay, List.append_nil,
        List.append_nil, hsrc]
      rfl
    | cons n r =>
      rw [hm.inside, get_fmkdir_below hr hshort]
      split_ifs with hn
      · rw [overlay, get_fmkdir_src hr hshort, get_fmkdir_below hr hshort]
        rfl
      · have hnone : v.get (src ++ n :: r) = none := by
          by_contra hne
          refine hn ((hnames n).2 (get_ne_none_of_le ?_ hne))
          exact ⟨r, by simp⟩
        rw [overlay, hnone]
  outside q hq hold := by
    rw [hm.outside q hq, get_fmkdir hr.way hshort]
    split_ifs with hpre
    · obtain ⟨x, hx⟩ := Option.ne_none_iff_exists'.1 (hold hpre)
      rw [hx, Option.some_or]
    · rfl
  made q k hq hnone hk := by
    obtain rfl : m = k := by simpa [hsrc] using hk
    have hget : (v.fmkdir dst (statPerms m)).get q = some (.dir (statPerms m)) := by
      rw [get_fmkdir hr.way hshort, if_pos hq, hnone, Option.none_or]
    by_cases hdst : dst <+: q
    · obtain rfl := List.IsPrefix.eq_of_length_le hdst hq.length_le
      rw [hm.self, hget]
    · rw [hm.outside q hdst, hget]

/-- The induction follows the depth of the tree. -/
theorem copies (mask fuel : ℕ) : Copies mask fuel := by
  induction fuel with
  | zero =>
    intro v src dst m _ hsrc hroomy
    have hlt := hroomy [] m (by rw [List.append_nil, hsrc])
    omega
  | succ fuel ih =>
    intro v src dst m hr hsrc hroomy
    have hframes := hroomy [] m (by rw [List.append_nil, hsrc])
    rw [List.length_nil] at hframes
    have hroot : src ≠ [] := by
      rintro rfl
      exact hr.apart.1 List.nil_prefix
    obtain ⟨hshort, hshort'⟩ := hr.short [] (by simp [hsrc])
    rw [List.append_nil] at hshort hshort'
    have hready := Ready.fmkdir hr hsrc hshort' (statPerms m)
    have hsource := get_fmkdir_src hr hshort' (statPerms m)
    have hsrc' : (v.fmkdir dst (statPerms m)).get src = some (.dir m) := by
      simpa [hsrc] using hsource []
    obtain ⟨y, hy⟩ : ∃ y, (v.fmkdir dst (statPerms m)).get dst = some y :=
      Option.ne_none_iff_exists'.1 (by rw [get_fmkdir_dst hr hshort']; simp)
    obtain ⟨k, hdst⟩ := exists_dir_of_kind hy (hready.way dst (List.prefix_refl dst) y hy)
    have hmem : ∀ n, n ∈ alphasort (children (v.fmkdir dst (statPerms m)).files src) ↔
        v.get (src ++ [n]) ≠ none := by
      intro n
      rw [← hsource, ← mem_children_iff]
      exact List.mem_insertionSort _
    obtain ⟨w, hw, hmerged⟩ := foldlM_copyEntry ih hready hdst
      (fun r j hj => hroomy r j (by rwa [← hsource]))
      (alphasort_nodup ((v.fmkdir dst (statPerms m)).tree.children_nodup src))
      (fun n hn => by rw [hsource]; exact (hmem n).1 hn) Merged.nil
    refine ⟨w, ?_, Merged.copied hr hsrc hshort' hmem hmerged⟩
    rw [fcopydir, if_neg (by omega), entry_of_get hsrc hroot hshort, Option.bind_some,
      (get_eq_some.1 hsrc).2]
    simp only [Node.perms, scandir_of_get hsrc' hshort, Option.bind_some]
    exact hw

end Volume

/-- A directory is copied with everything in it but sockets, over what is there already, if the
stack has room for the calls; nothing else changes but that the directories on the way are made. -/
theorem fcopydir_copied (mask : ℕ) (stack : CallStack) (v : Volume) (src dst : Path)
    (hr : Ready v src dst) (hsrc : ∃ m, v.get src = some (.dir m))
    (hroomy : Volume.Roomy v src dst stack.calls) :
    ∃ w, Volume.fcopydir mask stack.calls v src dst = some w ∧ Copied v w src dst := by
  obtain ⟨m, hm⟩ := hsrc
  exact Volume.copies mask stack.calls v src dst m hr hm hroomy

/-- A directory `s` with a file, a link and a directory in it. -/
def copySample : Volume where
  files := [[], [['s']], [['s'], ['a']], [['s'], ['l']], [['s'], ['t']], [['s'], ['t'], ['b']]]
  node q :=
    if q = [['s'], ['a']] then .file 0x1A4 [104, 105]
    else if q = [['s'], ['l']] then .link [['s'], ['a']]
    else if q = [['s'], ['t'], ['b']] then .file 0x9ED []
    else .dir 0x1ED
  tree := Tree.of_forall (by decide) (by decide) (by simp [Node.kind])

theorem fcopydir_copied_sample : ∃ w,
    Volume.fcopydir 0x180 usualStack.calls copySample [['s']] [['d'], ['e']] = some w ∧
      Copied copySample w [['s']] [['d'], ['e']] :=
  fcopydir_copied 0x180 usualStack copySample [['s']] [['d'], ['e']]
    (ready_of_forall (by decide) (by decide +kernel) (by decide +kernel)) ⟨0x1ED, by decide +kernel⟩
    (Volume.roomy_of_forall (by decide))

end WebTester.Fs
