import WebTester.CString
import Mathlib.Data.List.Basic

/-!
# Changing user and group

LRVM runs a solution, and `lrvm_kill` sends a signal, under the user and group that were
asked for on the command line. Both are started with the rights of root, and both read from
a configuration file who may be asked for.
-/
namespace WebTester.Lrvm
open CString

/-- The effective ids of a process. -/
structure Ids where
  uid : UInt32
  gid : UInt32
  deriving DecidableEq

/-- A line of the configuration file, which `fscanf` reads as three words. -/
structure Line where
  act : CStr
  dst : CStr
  name : CStr

/-- The users and groups of the system. -/
structure Names where
  getpwnam : CStr → Option UInt32
  getgrnam : CStr → Option UInt32

/-- Which of the system calls succeed. -/
structure Calls where
  setgroups : Bool
  setregid : Bool
  setreuid : Bool

/-- `allow_uid` and `allow_gid`. -/
structure Flags where
  uid : Bool
  gid : Bool

def getUid (names : Names) (name : CStr) : ℤ :=
  match names.getpwnam name with
  | none => -1
  | some id => id.toNat

def getGid (names : Names) (name : CStr) : ℤ :=
  match names.getgrnam name with
  | none => -1
  | some id => id.toNat

/-- The user of a `usergroup` line. -/
def userPart (name : CStr) : CStr := name.takeWhile (· != ':')

/-- The group of a `usergroup` line. -/
def groupPart (name : CStr) : CStr := (name.dropWhile (· != ':')).drop 1

/-- The loop over the configuration file. The number of a group is compared with the user
id that was asked for. -/
def scan (names : Names) (uid gid : ℤ) : List Line → Flags → Flags
  | [], f => f
  | l :: ls, f =>
    if l.act = "allow".toList then
      if l.dst = "user".toList then
        scan names uid gid ls (if uid = getUid names l.name then { f with uid := true } else f)
      else if l.dst = "group".toList then
        scan names uid gid ls (if uid = getGid names l.name then { f with gid := true } else f)
      else if l.dst = "usergroup".toList then
        if uid = getUid names (userPart l.name) ∧ gid = getGid names (groupPart l.name) then
          ⟨true, true⟩
        else scan names uid gid ls f
      else scan names uid gid ls f
    else scan names uid gid ls f

/-- The first check: root was asked for, or would be kept. -/
def asksRoot (e : Ids) (uid gid : ℤ) : Bool :=
  uid = 0 || gid = 0 || ((uid < 0 || gid < 0) && (e.uid = 0 || e.gid = 0))

/-- The ids that were asked for are the present ones. -/
def unchanged (e : Ids) (uid gid : ℤ) : Bool := uid = e.uid.toNat && gid = e.gid.toNat

/-- A `long` as an argument of `setregid` or `setreuid`. The id is cut down to 32 bits, and
`-1` leaves the id as it is. -/
def setId (old : UInt32) (x : ℤ) : UInt32 :=
  if x % 2 ^ 32 = 2 ^ 32 - 1 then old else UInt32.ofNat (x % 2 ^ 32).toNat

/-- `__gid >= 0 && __gid != __rgid` -/
def changes (old : UInt32) (x : ℤ) : Bool := 0 ≤ x && x ≠ old.toNat

def changeId (old : UInt32) (x : ℤ) : UInt32 := if changes old x then setId old x else old

/-- `chugid_prepare`, with the parameter of `exec_error` when it terminates. -/
def chugidPrepare (names : Names) (config : Option (List Line)) (e : Ids) (uid gid : ℤ) :
    Except String Flags :=
  if asksRoot e uid gid then
    .error "\"Trying to execute process with ROOT provolegies\""
  else if unchanged e uid gid then .ok ⟨false, false⟩
  else match config with
    | none => .error "\"Cound not open configuration file\""
    | some lines => .ok (scan names uid gid lines ⟨false, false⟩)

/-- `chugid` of LRVM, and the effective ids it leaves. -/
def chugid (calls : Calls) (allow : Flags) (e : Ids) (uid gid : ℤ) : Except String Ids :=
  if unchanged e uid gid then .ok e
  else if !calls.setgroups then .error "\"Unable to call setgroups()\""
  else if !allow.uid || !allow.gid then
    .error "\"Execution with such GID and UID is not allowed\""
  else if changes e.gid gid && !calls.setregid then .error "\"Unable to change effective GID\""
  else if changes e.uid uid && !calls.setreuid then .error "\"Unable to change effective UID\""
  else .ok ⟨changeId e.uid uid, changeId e.gid gid⟩

/-- The child of LRVM up to `execute`, with its effective ids there. -/
def child (names : Names) (calls : Calls) (config : Option (List Line)) (e : Ids)
    (uid gid : ℤ) : Except String Ids := do
  let allow ← chugidPrepare names config e uid gid
  chugid calls allow e uid gid

/-- `chugid` of `lrvm_kill`; it is `none` when the program exits. -/
def killChugid (names : Names) (calls : Calls) (config : Option (List Line)) (e : Ids)
    (uid gid : ℤ) : Option Ids :=
  if asksRoot e uid gid then none
  else if unchanged e uid gid then some e
  else match config with
    | none => none
    | some lines =>
      let allow := scan names uid gid lines ⟨false, false⟩
      if !calls.setgroups then none
      else if !allow.uid || !allow.gid then none
      else if changes e.gid gid && !calls.setregid then none
      else if changes e.uid uid && !calls.setreuid then none
      else some ⟨changeId e.uid uid, changeId e.gid gid⟩

/-! ## What the configuration says -/

variable (names : Names) (lines : List Line)

/-- An `allow user` line names the user. -/
def AllowsUser (uid : ℤ) : Prop :=
  ∃ l ∈ lines, l.act = "allow".toList ∧ l.dst = "user".toList ∧ uid = getUid names l.name

/-- An `allow group` line names the group. -/
def AllowsGroup (gid : ℤ) : Prop :=
  ∃ l ∈ lines, l.act = "allow".toList ∧ l.dst = "group".toList ∧ gid = getGid names l.name

/-- An `allow usergroup` line names the pair. -/
def AllowsPair (uid gid : ℤ) : Prop :=
  ∃ l ∈ lines, l.act = "allow".toList ∧ l.dst = "usergroup".toList ∧
    uid = getUid names (userPart l.name) ∧ gid = getGid names (groupPart l.name)

def Allowed (uid gid : ℤ) : Prop :=
  AllowsUser names lines uid ∧ AllowsGroup names lines gid ∨ AllowsPair names lines uid gid

/-- What is accepted in place of `Allowed`. -/
def Accepted (uid gid : ℤ) : Prop :=
  AllowsUser names lines uid ∧ AllowsGroup names lines uid ∨ AllowsPair names lines uid gid

instance (uid : ℤ) : Decidable (AllowsUser names lines uid) :=
  inferInstanceAs (Decidable (∃ l ∈ lines, _))

instance (gid : ℤ) : Decidable (AllowsGroup names lines gid) :=
  inferInstanceAs (Decidable (∃ l ∈ lines, _))

instance (uid gid : ℤ) : Decidable (AllowsPair names lines uid gid) :=
  inferInstanceAs (Decidable (∃ l ∈ lines, _))

instance (uid gid : ℤ) : Decidable (Allowed names lines uid gid) :=
  inferInstanceAs (Decidable (_ ∨ _))

variable {names lines} {config : Option (List Line)} {calls : Calls} {e e' : Ids}
  {uid gid : ℤ} {f : Flags}

section Scan

variable {l : Line}

lemma allowsUser_cons : AllowsUser names (l :: lines) uid ↔
    (l.act = "allow".toList ∧ l.dst = "user".toList ∧ uid = getUid names l.name) ∨
      AllowsUser names lines uid := by
  simp [AllowsUser]

lemma allowsGroup_cons : AllowsGroup names (l :: lines) gid ↔
    (l.act = "allow".toList ∧ l.dst = "group".toList ∧ gid = getGid names l.name) ∨
      AllowsGroup names lines gid := by
  simp [AllowsGroup]

lemma allowsPair_cons : AllowsPair names (l :: lines) uid gid ↔
    (l.act = "allow".toList ∧ l.dst = "usergroup".toList ∧
      uid = getUid names (userPart l.name) ∧ gid = getGid names (groupPart l.name)) ∨
      AllowsPair names lines uid gid := by
  simp [AllowsPair]

/-- Both flags are set after the loop. -/
lemma scan_spec (f : Flags) :
    (scan names uid gid lines f).uid ∧ (scan names uid gid lines f).gid ↔
      (f.uid ∨ AllowsUser names lines uid) ∧ (f.gid ∨ AllowsGroup names lines uid) ∨
        AllowsPair names lines uid gid := by
  induction lines generalizing f with
  | nil => simp [scan, AllowsUser, AllowsGroup, AllowsPair]
  | cons l lines ih =>
    rw [allowsUser_cons, allowsGroup_cons, allowsPair_cons]
    unfold scan
    split_ifs with hact huser hu hgroup hg hpair hp
    · rw [ih]
      simp [hact, huser, ← hu]
    · simp [ih, hact, huser, hu]
    · rw [ih]
      simp [hact, hgroup, ← hg]
    · simp [ih, hact, hgroup, hg]
    · simp [hact, hpair, hp]
    · simp [ih, hact, hpair, hp]
    · rw [ih]
      simp only [huser, hgroup, hpair, false_and, and_false, false_or]
    · rw [ih]
      simp only [hact, false_and, false_or]

end Scan

lemma accepted_iff : Accepted names lines uid gid ↔
    (scan names uid gid lines ⟨false, false⟩).uid ∧
      (scan names uid gid lines ⟨false, false⟩).gid := by
  rw [scan_spec]
  simp [Accepted]

/-! ## What is let through -/

section Child

variable (names calls config lines)

lemma child_of_asksRoot (h : asksRoot e uid gid) : child names calls config e uid gid =
    .error "\"Trying to execute process with ROOT provolegies\"" := by
  unfold child chugidPrepare
  rw [if_pos h]
  rfl

lemma child_of_unchanged (h : ¬asksRoot e uid gid) (hsame : unchanged e uid gid) :
    child names calls config e uid gid = .ok e := by
  unfold child chugidPrepare
  rw [if_neg h, if_pos hsame]
  exact if_pos hsame

lemma child_none (h : ¬asksRoot e uid gid) (hsame : ¬unchanged e uid gid) :
    child names calls none e uid gid = .error "\"Cound not open configuration file\"" := by
  unfold child chugidPrepare
  rw [if_neg h, if_neg hsame]
  rfl

lemma child_some (h : ¬asksRoot e uid gid) (hsame : ¬unchanged e uid gid) :
    child names calls (some lines) e uid gid =
      chugid calls (scan names uid gid lines ⟨false, false⟩) e uid gid := by
  unfold child chugidPrepare
  rw [if_neg h, if_neg hsame]
  rfl

end Child

/-- Both programs decide in the same way. -/
theorem killChugid_eq (names : Names) (calls : Calls) (config : Option (List Line)) (e : Ids)
    (uid gid : ℤ) : killChugid names calls config e uid gid =
      (child names calls config e uid gid).toOption := by
  unfold killChugid
  by_cases h : asksRoot e uid gid
  · rw [if_pos h, child_of_asksRoot _ _ _ h]
    rfl
  by_cases hsame : unchanged e uid gid
  · rw [if_neg h, if_pos hsame, child_of_unchanged _ _ _ h hsame]
    rfl
  rw [if_neg h, if_neg hsame]
  cases config with
  | none =>
    rw [child_none _ _ h hsame]
    rfl
  | some lines =>
    rw [child_some _ _ _ h hsame, chugid, if_neg hsame]
    dsimp only
    split_ifs <;> rfl

/-- What has been checked when `chugid` returns. -/
lemma chugid_eq_ok_iff {allow : Flags} (hsame : ¬unchanged e uid gid) :
    chugid calls allow e uid gid = .ok e' ↔ calls.setgroups ∧ (allow.uid ∧ allow.gid) ∧
      (changes e.gid gid → calls.setregid) ∧ (changes e.uid uid → calls.setreuid) ∧
      e' = ⟨changeId e.uid uid, changeId e.gid gid⟩ := by
  rw [chugid, if_neg hsame]
  split_ifs with hgroups hallow hgid huid
  · rw [Bool.not_eq_true'] at hgroups
    simp [hgroups]
  · rw [Bool.or_eq_true, Bool.not_eq_true', Bool.not_eq_true'] at hallow
    rcases hallow with h | h <;> simp [h]
  · rw [Bool.and_eq_true, Bool.not_eq_true'] at hgid
    simp [hgid]
  · rw [Bool.and_eq_true, Bool.not_eq_true'] at huid
    simp [huid]
  · simp only [Bool.or_eq_true, Bool.and_eq_true, Bool.not_eq_true', not_or, not_and,
      Bool.not_eq_false] at hgroups hallow hgid huid
    rw [Except.ok.injEq, eq_comm]
    tauto

/-- The child runs the solution with its own ids, or with ids that are accepted. -/
theorem child_eq_ok_iff : child names calls config e uid gid = .ok e' ↔
    asksRoot e uid gid = false ∧
      (unchanged e uid gid ∧ e' = e ∨
        ¬unchanged e uid gid ∧ ∃ lines, config = some lines ∧ calls.setgroups ∧
          Accepted names lines uid gid ∧
          (changes e.gid gid → calls.setregid) ∧ (changes e.uid uid → calls.setreuid) ∧
          e' = ⟨changeId e.uid uid, changeId e.gid gid⟩) := by
  by_cases h : asksRoot e uid gid
  · simp [child_of_asksRoot _ _ _ h, h]
  by_cases hsame : unchanged e uid gid
  · rw [child_of_unchanged _ _ _ h hsame, Except.ok.injEq, eq_comm]
    simp [h, hsame]
  cases config with
  | none => simp [child_none _ _ h hsame, hsame]
  | some lines =>
    rw [child_some _ _ _ h hsame, chugid_eq_ok_iff hsame, ← accepted_iff]
    simp [h, hsame]

lemma killChugid_eq_some_iff : killChugid names calls config e uid gid = some e' ↔
    child names calls config e uid gid = .ok e' := by
  rw [killChugid_eq]
  cases child names calls config e uid gid with
  | error msg => simp [Except.toOption]
  | ok e'' => simp [Except.toOption]

/-- Every system call succeeds. -/
def Calls.all : Calls := ⟨true, true, true⟩

lemma child_all (h : asksRoot e uid gid = false) (hsame : ¬unchanged e uid gid)
    (hacc : Accepted names lines uid gid) : child names Calls.all (some lines) e uid gid =
      .ok ⟨changeId e.uid uid, changeId e.gid gid⟩ :=
  child_eq_ok_iff.2 ⟨h, .inr ⟨hsame, lines, rfl, rfl, hacc, fun _ => rfl, fun _ => rfl, rfl⟩⟩

lemma only_allowed_iff (huid : 0 ≤ uid) (hgid : 0 ≤ gid) (hsame : ¬unchanged e uid gid) :
    (∀ calls e', child names calls (some lines) e uid gid = .ok e' →
        Allowed names lines uid gid) ↔
      uid = 0 ∨ gid = 0 ∨ (AllowsUser names lines uid ∧ AllowsGroup names lines uid →
        AllowsGroup names lines gid ∨ AllowsPair names lines uid gid) := by
  constructor
  · intro h
    by_cases hu : uid = 0
    · exact .inl hu
    by_cases hg : gid = 0
    · exact .inr (.inl hg)
    refine .inr (.inr fun hacc => ?_)
    have hroot : asksRoot e uid gid = false := by simp [asksRoot, hu, hg, huid.not_gt, hgid.not_gt]
    exact (h _ _ (child_all hroot hsame (.inl hacc))).imp And.right id
  · intro h calls e' hok
    obtain ⟨hroot, hrun⟩ := child_eq_ok_iff.1 hok
    simp only [asksRoot, Bool.or_eq_false_iff, decide_eq_false_iff_not] at hroot
    rcases hrun with ⟨heq, -⟩ | ⟨-, lines', hlines, -, hacc, -⟩
    · exact absurd heq hsame
    obtain rfl : lines = lines' := Option.some.inj hlines
    rcases hacc with hacc | hacc
    · have hgroup := (h.resolve_left hroot.1.1).resolve_left hroot.1.2 hacc
      exact hgroup.imp (And.intro hacc.1) id
    · exact .inr hacc

/-- LRVM and `lrvm_kill` go on with allowed ids only, unless the user is allowed, a group
whose number is that of the user is allowed, and the group itself is not. -/
theorem only_allowed_unless_uid_as_gid (names : Names) (lines : List Line) (e : Ids) (uid gid : ℤ)
    (huid : 0 ≤ uid) (hgid : 0 ≤ gid) (hne : ¬(uid = e.uid.toNat ∧ gid = e.gid.toNat)) :
    ((∀ calls e', child names calls (some lines) e uid gid = .ok e' →
        Allowed names lines uid gid) ↔
      uid = 0 ∨ gid = 0 ∨ (AllowsUser names lines uid ∧ AllowsGroup names lines uid →
        AllowsGroup names lines gid ∨ AllowsPair names lines uid gid)) ∧
    ((∀ calls e', killChugid names calls (some lines) e uid gid = some e' →
        Allowed names lines uid gid) ↔
      uid = 0 ∨ gid = 0 ∨ (AllowsUser names lines uid ∧ AllowsGroup names lines uid →
        AllowsGroup names lines gid ∨ AllowsPair names lines uid gid)) := by
  have hsame : ¬unchanged e uid gid := by simpa [unchanged] using hne
  simp only [killChugid_eq_some_iff]
  exact ⟨only_allowed_iff huid hgid hsame, only_allowed_iff huid hgid hsame⟩

/-- A system where user `u` has number 1000 and group `g` the given one. -/
def smallNames (gid : UInt32) : Names where
  getpwnam name := if name = "u".toList then some 1000 else none
  getgrnam name := if name = "g".toList then some gid else none

def smallConfig : List Line :=
  [⟨"allow".toList, "user".toList, "u".toList⟩, ⟨"allow".toList, "group".toList, "g".toList⟩]

theorem only_allowed_small :
    child (smallNames 1000) Calls.all (some smallConfig) ⟨0, 0⟩ 1000 1000 = .ok ⟨1000, 1000⟩ ∧
      Allowed (smallNames 1000) smallConfig 1000 1000 := by
  have hok : child (smallNames 1000) Calls.all (some smallConfig) ⟨0, 0⟩ 1000 1000 =
      .ok ⟨1000, 1000⟩ := rfl
  have honly := (only_allowed_unless_uid_as_gid (smallNames 1000) smallConfig ⟨0, 0⟩ 1000 1000
    (by decide) (by decide) (by decide)).1
  exact ⟨hok, honly.2 (.inr (.inr fun h => .inl h.2)) _ _ hok⟩

/-- Group 5 is nowhere in the configuration. -/
theorem uid_as_gid_not_allowed :
    child (smallNames 1000) Calls.all (some smallConfig) ⟨0, 0⟩ 1000 5 = .ok ⟨1000, 5⟩ ∧
      killChugid (smallNames 1000) Calls.all (some smallConfig) ⟨0, 0⟩ 1000 5 =
        some ⟨1000, 5⟩ ∧
      ¬Allowed (smallNames 1000) smallConfig 1000 5 := by
  refine ⟨by rfl, by rfl, by decide⟩

/-! ## Running as root -/

/-- The id that was asked for is not zero, but `setregid` or `setreuid` makes it zero or
leaves it zero. -/
def BecomesRoot (old : UInt32) (x : ℤ) : Prop :=
  0 < x ∧ (x % 2 ^ 32 = 0 ∨ x % 2 ^ 32 = 2 ^ 32 - 1 ∧ old = 0)

lemma setId_eq_zero_iff (old : UInt32) (x : ℤ) : setId old x = 0 ↔
    x % 2 ^ 32 = 0 ∨ x % 2 ^ 32 = 2 ^ 32 - 1 ∧ old = 0 := by
  unfold setId
  split_ifs with hx
  · have hzero : x % 2 ^ 32 ≠ 0 := by omega
    rw [or_iff_right hzero, and_iff_right hx]
  · have hlt : (x % 2 ^ 32).toNat < UInt32.size := by
      have := Int.emod_lt_of_pos x (show (0 : ℤ) < 2 ^ 32 by decide)
      rw [UInt32.size]
      omega
    rw [← UInt32.toNat_inj, UInt32.toNat_ofNat_of_lt' hlt, UInt32.toNat_zero]
    have := Int.emod_nonneg x (show (2 ^ 32 : ℤ) ≠ 0 by decide)
    omega

lemma ne_of_becomesRoot {old : UInt32} {x : ℤ} (h : BecomesRoot old x) : x ≠ old.toNat := by
  rintro rfl
  have hlt : old.toNat < 2 ^ 32 := old.toNat_lt
  obtain ⟨hpos, hx | ⟨hx, rfl⟩⟩ := h
  · omega
  · simp at hpos

/-- Of an id that was let through, only a number that does not fit becomes root. -/
lemma changeId_eq_zero_iff {old : UInt32} {x : ℤ} (hx : x ≠ 0) (hneg : x < 0 → old ≠ 0) :
    changeId old x = 0 ↔ BecomesRoot old x := by
  unfold changeId BecomesRoot
  have hpos : 0 < x ↔ 0 ≤ x := by omega
  split_ifs with hch
  · have hle : 0 ≤ x := by
      simp only [changes, Bool.and_eq_true, decide_eq_true_eq] at hch
      exact hch.1
    rw [setId_eq_zero_iff, hpos, and_iff_right hle]
  · have hch' : ¬(0 ≤ x ∧ x ≠ old.toNat) := by simpa [changes] using hch
    refine iff_of_false ?_ fun hb => hch' ⟨hb.1.le, ne_of_becomesRoot hb⟩
    rintro rfl
    refine hch' ⟨?_, hx⟩
    by_contra hlt
    exact hneg (by omega) rfl

/-- The solution never runs as root, unless an id is accepted whose low 32 bits are zero, or
are all ones while the process is root. -/
theorem never_root_iff (names : Names) (config : Option (List Line)) (e : Ids) (uid gid : ℤ) :
    (∀ calls e', child names calls config e uid gid = .ok e' → e'.uid ≠ 0 ∧ e'.gid ≠ 0) ↔
      ∀ lines, config = some lines → Accepted names lines uid gid →
        asksRoot e uid gid = false → ¬BecomesRoot e.uid uid ∧ ¬BecomesRoot e.gid gid := by
  have hchange : asksRoot e uid gid = false →
      (changeId e.uid uid = 0 ↔ BecomesRoot e.uid uid) ∧
        (changeId e.gid gid = 0 ↔ BecomesRoot e.gid gid) := by
    intro hroot
    simp only [asksRoot, Bool.or_eq_false_iff, Bool.and_eq_false_iff, decide_eq_false_iff_not]
      at hroot
    obtain ⟨⟨hu, hg⟩, hneg⟩ := hroot
    exact ⟨changeId_eq_zero_iff hu (by tauto), changeId_eq_zero_iff hg (by tauto)⟩
  constructor
  · rintro h lines rfl hacc hroot
    obtain ⟨huid, hgid⟩ := hchange hroot
    by_contra hb
    have hsame : ¬unchanged e uid gid := by
      intro heq
      simp only [unchanged, Bool.and_eq_true, decide_eq_true_eq] at heq
      rcases not_and_or.1 hb with hb | hb
      · exact ne_of_becomesRoot (not_not.1 hb) heq.1
      · exact ne_of_becomesRoot (not_not.1 hb) heq.2
    obtain ⟨hu, hg⟩ := h _ _ (child_all hroot hsame hacc)
    exact hb ⟨mt huid.2 hu, mt hgid.2 hg⟩
  · intro h calls e' hok
    obtain ⟨hroot, hrun⟩ := child_eq_ok_iff.1 hok
    rcases hrun with ⟨heq, rfl⟩ | ⟨-, lines, rfl, -, hacc, -, -, rfl⟩
    · -- The ids stay as they are, and are the ones that were checked.
      simp only [unchanged, Bool.and_eq_true, decide_eq_true_eq] at heq
      simp only [asksRoot, Bool.or_eq_false_iff, decide_eq_false_iff_not] at hroot
      refine ⟨fun hz => hroot.1.1 ?_, fun hz => hroot.1.2 ?_⟩
      · rw [heq.1, hz]
        rfl
      · rw [heq.2, hz]
        rfl
    · obtain ⟨huid, hgid⟩ := hchange hroot
      obtain ⟨hu, hg⟩ := h lines rfl hacc hroot
      exact ⟨mt huid.1 hu, mt hgid.1 hg⟩

/-- Group `4294967296` is none, and `setregid` makes it root. -/
theorem gid_truncated_root :
    child (smallNames 1000) Calls.all (some smallConfig) ⟨0, 0⟩ 1000 4294967296 =
      .ok ⟨1000, 0⟩ := by
  rfl

end WebTester.Lrvm
