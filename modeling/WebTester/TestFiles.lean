import WebTester.FlexVal
import WebTester.HiveScan
import WebTester.Packed
import WebTester.Scanf

/-!
# Test files of a problem

The tester names a test by the number of all tests, `get_test_format` has to guess the format of
the names from a range of tests and from the files. `pack_tests_for_problem` reads the files of a
range into one buffer, one after the other.
-/
namespace WebTester.Informatics
open CString Assarr
open Flexval (printLong)
open Hive (nul)
open Scanf (digitsValue_decimal)

/-! ## Names -/

/-- `%02d` and `%03d` of a number that is not negative. -/
def padded (width n : ℕ) : CStr :=
  List.replicate (width - (decimal n).length) '0' ++ decimal n

/-- `%02ld` and `%03ld`: the sign counts to the width. -/
def paddedLong (width : ℕ) (x : ℤ) : CStr :=
  if x < 0 then '-' :: padded (width - 1) x.natAbs else padded width x.natAbs

@[simp] lemma paddedLong_natCast (width n : ℕ) : paddedLong width n = padded width n := by
  rw [paddedLong, if_neg (by omega), Int.natAbs_natCast]

lemma length_padded (width n : ℕ) : (padded width n).length = max width (decimal n).length := by
  simp only [padded, List.length_append, List.length_replicate]
  omega

lemma slash_notMem_padded (width n : ℕ) : '/' ∉ padded width n := by
  rw [padded, List.mem_append, not_or]
  refine ⟨fun h => absurd (List.eq_of_mem_replicate h) (by decide), fun h => ?_⟩
  exact absurd (isDigit_of_mem_decimal h) (by decide)

/-- `testnum`. -/
def testnum (num total : ℕ) : CStr := if total < 100 then padded 2 num else padded 3 num

/-- `snprintf` into one of the buffers of 4096 bytes. -/
def snprintf (s : CStr) : CStr := s.take 4095

/-- The paths for which `stat` succeeds; with its NUL none is longer than `PATH_MAX`. -/
structure Files where
  stat : CStr → Bool
  path_max : ∀ path, stat path = true → path.length < 4096

def Files.fexists (fs : Files) (fn : CStr) : Bool := fs.stat fn

/-- The full name of a test file, written in two steps. -/
def fullName (dir name ext : CStr) : CStr := snprintf (snprintf (dir ++ '/' :: name) ++ ext)

/-- `get_test_format` for the tests from `lo` to `up`: the width of the format. -/
def getTestFormat (fs : Files) (dataDir tstExt : CStr) (lo up : ℤ) : ℕ :=
  if 100 < up then 3
  else if fs.fexists (snprintf (dataDir ++ '/' :: paddedLong 2 lo ++ tstExt)) then 2
  else 3

/-- The directory holds exactly the input files of `N` tests. -/
def HoldsTests (fs : Files) (dir ext : CStr) (N : ℕ) : Prop :=
  ∀ name, '/' ∉ name →
    (fs.fexists (dir ++ '/' :: name ++ ext) = true ↔ ∃ i, 1 ≤ i ∧ i ≤ N ∧ name = testnum i N)

section Names

variable {fs : Files} {dir ext : CStr} {N lo up i : ℕ}

lemma slash_notMem_testnum (num total : ℕ) : '/' ∉ testnum num total := by
  unfold testnum
  split <;> exact slash_notMem_padded _ _

lemma HoldsTests.path_lt (h : HoldsTests fs dir ext N) (hi : 1 ≤ i) (hN : i ≤ N) :
    (dir ++ '/' :: testnum i N ++ ext).length < 4096 :=
  fs.path_max _ ((h _ (slash_notMem_testnum i N)).2 ⟨i, hi, hN, rfl⟩)

lemma fullName_of_fits {name : CStr} (h : (dir ++ '/' :: name ++ ext).length < 4096) :
    fullName dir name ext = dir ++ '/' :: name ++ ext := by
  simp only [List.length_append] at h
  have hpre : snprintf (dir ++ '/' :: name) = dir ++ '/' :: name :=
    List.take_of_length_le (by simp only [List.length_append]; omega)
  rw [fullName, hpre]
  exact List.take_of_length_le (by simp only [List.length_append]; omega)

lemma length_decimal_le {n k : ℕ} (hk : 0 < k) : (decimal n).length ≤ k ↔ n < 10 ^ k :=
  Nat.length_toDigits_le_iff (by decide) hk

/-- From the number 100 on both formats give the same text. -/
lemma padded_of_ge (h : 100 ≤ i) : padded 2 i = padded 3 i := by
  have hlen : 3 ≤ (decimal i).length := by
    have := (length_decimal_le (n := i) (k := 2) (by decide)).not.2 (by omega)
    omega
  rw [padded, padded, Nat.sub_eq_zero_of_le hlen, Nat.sub_eq_zero_of_le (by omega)]

/-- The guessed format writes the tests of the range as `testnum` does. -/
lemma padded_getTestFormat (h : HoldsTests fs dir ext N) (hlo : 1 ≤ lo) (hup : lo ≤ up)
    (hN : up ≤ N) (hi : lo ≤ i) :
    padded (getTestFormat fs dir ext lo up) i = testnum i N := by
  have hname := h (padded 2 lo) (slash_notMem_padded 2 lo)
  have hpath := h.path_lt le_rfl (hlo.trans (hup.trans hN))
  simp only [List.length_append, List.length_cons] at hpath
  rw [getTestFormat, testnum, paddedLong_natCast]
  by_cases hsmall : N < 100
  · -- the file that is looked for is the first one of the range
    have hlen : (padded 2 lo).length = (testnum 1 N).length := by
      have hlo2 := (length_decimal_le (n := lo) (k := 2) (by decide)).2 (by omega)
      have hone := (length_decimal_le (n := 1) (k := 2) (by decide)).2 (by decide)
      rw [testnum, if_pos hsmall, length_padded, length_padded]
      omega
    have hfits : snprintf (dir ++ '/' :: padded 2 lo ++ ext) = dir ++ '/' :: padded 2 lo ++ ext :=
      List.take_of_length_le (by simp only [List.length_append, List.length_cons]; omega)
    have hstat := hname.2 ⟨lo, hlo, hup.trans hN, by rw [testnum, if_pos hsmall]⟩
    rw [if_neg (by omega), hfits, if_pos hstat, if_pos hsmall]
  · rw [if_neg hsmall]
    split_ifs with hbig hstat
    · rfl
    · -- a name of two digits is none of the files
      have hlen : (padded 2 lo).length ≤ (testnum 1 N).length := by
        have hlo3 := (length_decimal_le (n := lo) (k := 3) (by decide)).2 (by omega)
        rw [testnum, if_neg hsmall, length_padded, length_padded]
        omega
      have hfits : snprintf (dir ++ '/' :: padded 2 lo ++ ext) =
          dir ++ '/' :: padded 2 lo ++ ext :=
        List.take_of_length_le (by simp only [List.length_append, List.length_cons]; omega)
      rw [hfits] at hstat
      obtain ⟨j, -, -, heq⟩ := hname.1 hstat
      have hlong : 3 ≤ (padded 2 lo).length := by
        rw [heq, testnum, if_neg hsmall, length_padded]
        exact le_max_left _ _
      have hge : ¬lo < 10 ^ 2 := by
        rw [← length_decimal_le (by decide)]
        rw [length_padded] at hlong
        omega
      exact padded_of_ge (by omega)
    · rfl

/-- The names of `pack_tests_for_problem` are the names of the tester. -/
theorem packed_names_agree (fs : Files) (dir ext : CStr) (N lo up : ℕ)
    (h : HoldsTests fs dir ext N) (hlo : 1 ≤ lo) (hup : lo ≤ up) (hN : up ≤ N) :
    ∀ i, lo ≤ i → i ≤ up →
      paddedLong (getTestFormat fs dir ext lo up) i = testnum i N ∧
        fullName dir (paddedLong (getTestFormat fs dir ext lo up) i) ext =
          dir ++ '/' :: testnum i N ++ ext := by
  intro i hi hi'
  have hname := padded_getTestFormat h hlo hup hN hi
  rw [← paddedLong_natCast] at hname
  refine ⟨hname, ?_⟩
  rw [hname]
  exact fullName_of_fits (h.path_lt (hlo.trans hi) (hi'.trans hN))

/-- The directory `d` with the tests 1 and 2. -/
def twoTests : Files where
  stat path := path = "d/01.tst".toList || path = "d/02.tst".toList
  path_max path h := by
    rcases Bool.or_eq_true_iff.1 h with h | h <;> rw [of_decide_eq_true h] <;> decide

lemma holdsTests_twoTests : HoldsTests twoTests "d".toList ".tst".toList 2 := by
  intro name _
  have hcancel (s : CStr) : "d".toList ++ '/' :: name ++ ".tst".toList =
      "d".toList ++ '/' :: s ++ ".tst".toList ↔ name = s := by
    rw [List.append_left_inj, List.append_right_inj, List.cons.injEq, and_iff_right rfl]
  have hstat : twoTests.fexists ("d".toList ++ '/' :: name ++ ".tst".toList) = true ↔
      name = testnum 1 2 ∨ name = testnum 2 2 := by
    rw [← hcancel, ← hcancel, Files.fexists, twoTests, Bool.or_eq_true_iff, decide_eq_true_iff,
      decide_eq_true_iff]
    rfl
  rw [hstat]
  constructor
  · rintro (h | h)
    · exact ⟨1, le_rfl, by decide, h⟩
    · exact ⟨2, by decide, le_rfl, h⟩
  · rintro ⟨i, hlo, hup, h⟩
    obtain rfl | rfl : i = 1 ∨ i = 2 := by omega
    · exact .inl h
    · exact .inr h

theorem packed_names_agree_twoTests :
    paddedLong (getTestFormat twoTests "d".toList ".tst".toList 1 2) 2 = testnum 2 2 ∧
      fullName "d".toList (paddedLong (getTestFormat twoTests "d".toList ".tst".toList 1 2) 2)
        ".tst".toList = "d/02.tst".toList :=
  packed_names_agree twoTests "d".toList ".tst".toList 2 1 2 holdsTests_twoTests (by decide)
    (by decide) le_rfl 2 (by decide) le_rfl

end Names

/-! ## Contents -/

/-- The two kinds of files, with the arrays `tsts` and `anss`. -/
inductive FileKind
  | tst
  | ans
  deriving DecidableEq, Repr

/-- What `pack_tests_for_problem` reads: the contents of the files that can be opened, and the
settings. -/
structure Source where
  fopen : CStr → Option CStr
  dataDir : CStr
  width : ℕ
  ext : FileKind → CStr
  maxSize : ℕ

lemma schar_of_isDigit {c : Char} (h : c.isDigit) : 0 ≤ schar c := by
  have hc := Char.isDigit_iff_toNat.1 h
  simp only [Char.reduceToNat] at hc
  clear h
  have hmod : (c.toNat : ℤ).bmod 256 = c.toNat := Int.bmod_eq_of_le (by omega) (by omega)
  unfold schar
  omega

lemma assarrHash_nonneg {key : CStr} (h : ∀ c ∈ key, 0 ≤ schar c) : 0 ≤ assarrHash key := by
  induction key using List.reverseRecOn with
  | nil => exact le_rfl
  | append_singleton cs c ih =>
    have hcs := ih fun d hd => h d (List.mem_append_left _ hd)
    have hc := h c (by simp)
    unfold assarrHash at hcs ⊢
    rw [List.foldl_concat]
    exact Int.tmod_nonneg _ (add_nonneg (mul_nonneg hcs (by decide)) hc)

/-- Numbers have a bucket. -/
lemma assarrHash_printLong (x : ℤ) : 0 ≤ assarrHash (printLong x) := by
  have hdigits : ∀ c ∈ decimal x.natAbs, 0 ≤ schar c :=
    fun c hc => schar_of_isDigit (isDigit_of_mem_decimal hc)
  unfold printLong
  split
  · exact assarrHash_nonneg (List.forall_mem_cons.2 ⟨by decide, hdigits⟩)
  · exact assarrHash_nonneg hdigits

lemma printLong_injective : Function.Injective printLong := by
  have hdecimal {m n : ℕ} (h : decimal m = decimal n) : m = n := by
    rw [← digitsValue_decimal m, h, digitsValue_decimal]
  have hminus (m n : ℕ) : '-' :: decimal m ≠ decimal n := by
    intro h
    have hmem : '-' ∈ decimal n := h ▸ List.mem_cons_self
    exact absurd (isDigit_of_mem_decimal hmem) (by decide)
  intro x y h
  unfold printLong at h
  split_ifs at h
  · have := hdecimal (List.cons.inj h).2
    omega
  · exact absurd h (hminus _ _)
  · exact absurd h.symm (hminus _ _)
  · have := hdecimal h
    omega

namespace Source

/-- The contents of the file of a test. -/
def content (src : Source) (cur : ℤ) (k : FileKind) : Option CStr :=
  src.fopen (fullName src.dataDir (paddedLong src.width cur) (src.ext k))

/-- `READ_FILE_ITER`: whether `err` is set, and the arrays. The buffer has `max_size` bytes, and a
NUL is written behind what was read. -/
def readFileIter (src : Source) (cur : ℤ) (k : FileKind) (arrs : FileKind → AssArr CStr) :
    Option (Bool × (FileKind → AssArr CStr)) :=
  match src.content cur k with
  | none => some (true, arrs)
  | some content =>
    let size := min content.length src.maxSize
    if size < src.maxSize then
      ((arrs k).setValue (printLong cur) ((content.take size).takeWhile (· ≠ nul))).map fun arr =>
        (false, Function.update arrs k arr)
    else none

/-- The loop over `count` tests. -/
def packLoop (src : Source) :
    ℕ → ℤ → (FileKind → AssArr CStr) → Option (Bool × (FileKind → AssArr CStr))
  | 0, _, arrs => some (false, arrs)
  | count + 1, cur, arrs => do
    let (err, arrs) ← src.readFileIter cur .tst arrs
    if err then return (true, arrs)
    let (err, arrs) ← src.readFileIter cur .ans arrs
    if err then return (true, arrs)
    src.packLoop count (cur + 1) arrs

/-- The loop of `pack_tests_for_problem` for the tests from `lo` to `up`. -/
def readTests (src : Source) (lo up : ℤ) : Option (Bool × (FileKind → AssArr CStr)) :=
  src.packLoop (up + 1 - lo).toNat lo fun _ => .create

/-- The two arrays packed into one. -/
def packBoth (arrs : FileKind → AssArr CStr) : Option CStr := do
  let arr ← AssArr.create.setValue "tst".toList (assarrPack (arrs .tst))
  let arr ← arr.setValue "ans".toList (assarrPack (arrs .ans))
  return assarrPack arr

/-- `pack_tests_for_problem`, which may return `NULL`. -/
def packTestsForProblem (src : Source) (lo up : ℤ) : Option (Option CStr) :=
  if src.maxSize = 0 then some none
  else do
    let (err, arrs) ← src.readTests lo up
    if err then return none
    return some (← packBoth arrs)

/-! ### The iterations one after the other -/

/-- The uses of `READ_FILE_ITER` in the loop. -/
def iterations : ℕ → ℤ → List (ℤ × FileKind)
  | 0, _ => []
  | count + 1, cur => (cur, .tst) :: (cur, .ans) :: iterations count (cur + 1)

def runIters (src : Source) :
    List (ℤ × FileKind) → (FileKind → AssArr CStr) → Option (Bool × (FileKind → AssArr CStr))
  | [], arrs => some (false, arrs)
  | it :: its, arrs => do
    let (err, arrs) ← src.readFileIter it.1 it.2 arrs
    if err then return (true, arrs)
    src.runIters its arrs

/-- The iterations that open a file: the loop is left at the first one that does not. -/
def opened (src : Source) (its : List (ℤ × FileKind)) : List (ℤ × FileKind) :=
  its.takeWhile fun it => (src.content it.1 it.2).isSome

/-- The longest part without a NUL of what the buffer is meant to take. -/
def clipped (src : Source) (content : CStr) : CStr :=
  (content.take src.maxSize).takeWhile (· ≠ nul)

/-- The file of an iteration has a byte less than the buffer. -/
def Fits (src : Source) (it : ℤ × FileKind) : Prop :=
  ∀ content, src.content it.1 it.2 = some content → content.length < src.maxSize

/-- The array holds what the file of an iteration begins with. -/
def Holds (src : Source) (arrs : FileKind → AssArr CStr) (it : ℤ × FileKind) : Prop :=
  ∀ content, src.content it.1 it.2 = some content →
    (arrs it.2).getValue (printLong it.1) = some (src.clipped content)

variable {src : Source} {it : ℤ × FileKind} {its : List (ℤ × FileKind)}
  {arrs arrs' : FileKind → AssArr CStr}

lemma packLoop_eq (count : ℕ) (cur : ℤ) (arrs : FileKind → AssArr CStr) :
    src.packLoop count cur arrs = src.runIters (iterations count cur) arrs := by
  induction count generalizing cur arrs with
  | zero => rfl
  | succ count ih => simp only [packLoop, iterations, runIters, ih]

lemma le_of_mem_iterations {count : ℕ} {cur : ℤ} (h : it ∈ iterations count cur) : cur ≤ it.1 := by
  induction count generalizing cur with
  | zero => cases h
  | succ count ih =>
    rw [iterations, List.mem_cons, List.mem_cons] at h
    rcases h with rfl | rfl | h
    · exact le_rfl
    · exact le_rfl
    · have := ih h
      omega

lemma nodup_iterations (count : ℕ) (cur : ℤ) : (iterations count cur).Nodup := by
  induction count generalizing cur with
  | zero => exact List.nodup_nil
  | succ count ih =>
    have hout (k : FileKind) : (cur, k) ∉ iterations count (cur + 1) := by
      intro h
      have := le_of_mem_iterations h
      dsimp only at this
      omega
    rw [iterations, List.nodup_cons, List.nodup_cons, List.mem_cons, not_or]
    exact ⟨⟨by simp, hout .tst⟩, hout .ans, ih _⟩

lemma readFileIter_fits {content : CStr} (hc : src.content it.1 it.2 = some content)
    (hfit : content.length < src.maxSize) (arrs : FileKind → AssArr CStr) :
    ∃ arr, (arrs it.2).setValue (printLong it.1) (src.clipped content) = some arr ∧
      src.readFileIter it.1 it.2 arrs = some (false, Function.update arrs it.2 arr) := by
  obtain ⟨arr, harr⟩ := Option.isSome_iff_exists.1
    (AssArr.setValue_isSome (a := arrs it.2) (v := src.clipped content) |>.2
      (assarrHash_printLong it.1))
  refine ⟨arr, harr, ?_⟩
  have hsize : min content.length src.maxSize = content.length := min_eq_left hfit.le
  rw [clipped, List.take_of_length_le hfit.le] at harr
  simp only [readFileIter, hc, hsize, if_pos hfit, List.take_length, harr, Option.map_some]

lemma readFileIter_long {content : CStr} (hc : src.content it.1 it.2 = some content)
    (hlong : ¬content.length < src.maxSize) (arrs : FileKind → AssArr CStr) :
    src.readFileIter it.1 it.2 arrs = none := by
  have hsize : ¬min content.length src.maxSize < src.maxSize := by omega
  simp only [readFileIter, hc, if_neg hsize]

lemma readFileIter_missing (hc : src.content it.1 it.2 = none) (arrs : FileKind → AssArr CStr) :
    src.readFileIter it.1 it.2 arrs = some (true, arrs) := by
  simp only [readFileIter, hc]

/-- Iterations for other tests or of the other kind leave a value as it is. -/
lemma getValue_runIters {err : Bool} (h : src.runIters its arrs = some (err, arrs'))
    (hit : it ∉ its) :
    (arrs' it.2).getValue (printLong it.1) = (arrs it.2).getValue (printLong it.1) := by
  induction its generalizing arrs with
  | nil =>
    obtain ⟨-, rfl⟩ : false = err ∧ arrs = arrs' := by simpa [runIters] using h
    rfl
  | cons head its ih =>
    obtain ⟨hne, hits⟩ : it ≠ head ∧ it ∉ its := by simpa using hit
    cases hc : src.content head.1 head.2 with
    | none =>
      obtain ⟨-, rfl⟩ : true = err ∧ arrs = arrs' := by
        simpa [runIters, readFileIter_missing hc] using h
      rfl
    | some content =>
      by_cases hfit : content.length < src.maxSize
      · obtain ⟨arr, harr, hread⟩ := readFileIter_fits hc hfit arrs
        have hrest : src.runIters its (Function.update arrs head.2 arr) = some (err, arrs') := by
          simpa [runIters, hread] using h
        rw [ih hrest hits]
        by_cases hkind : it.2 = head.2
        · have hkey : printLong it.1 ≠ printLong head.1 := fun heq =>
            hne (Prod.ext (printLong_injective heq) hkind)
          rw [hkind, Function.update_self, AssArr.getValue_setValue harr, if_neg hkey]
        · rw [Function.update_of_ne hkind]
      · simp [runIters, readFileIter_long hc hfit] at h

lemma runIters_isSome_iff (its : List (ℤ × FileKind)) (arrs : FileKind → AssArr CStr) :
    (src.runIters its arrs).isSome ↔ ∀ it ∈ src.opened its, src.Fits it := by
  induction its generalizing arrs with
  | nil => simp [opened, runIters]
  | cons head its ih =>
    cases hc : src.content head.1 head.2 with
    | none => simp [opened, runIters, hc, readFileIter_missing hc]
    | some content =>
      have hopened : src.opened (head :: its) = head :: src.opened its := by simp [opened, hc]
      have hhead : src.Fits head ↔ content.length < src.maxSize := by simp [Fits, hc]
      rw [hopened, List.forall_mem_cons, hhead]
      by_cases hfit : content.length < src.maxSize
      · obtain ⟨arr, -, hread⟩ := readFileIter_fits hc hfit arrs
        have hrun : src.runIters (head :: its) arrs =
            src.runIters its (Function.update arrs head.2 arr) := by simp [runIters, hread]
        rw [hrun, ih, and_iff_right hfit]
      · simp [runIters, readFileIter_long hc hfit, hfit]

lemma holds_runIters (hnodup : its.Nodup) {err : Bool}
    (h : src.runIters its arrs = some (err, arrs')) :
    ∀ it ∈ src.opened its, src.Holds arrs' it := by
  induction its generalizing arrs with
  | nil => simp [opened]
  | cons head its ih =>
    obtain ⟨hhead, hits⟩ := List.nodup_cons.1 hnodup
    cases hc : src.content head.1 head.2 with
    | none => simp [opened, hc]
    | some content =>
      have hopened : src.opened (head :: its) = head :: src.opened its := by simp [opened, hc]
      by_cases hfit : content.length < src.maxSize
      · obtain ⟨arr, harr, hread⟩ := readFileIter_fits hc hfit arrs
        have hrest : src.runIters its (Function.update arrs head.2 arr) = some (err, arrs') := by
          simpa [runIters, hread] using h
        rw [hopened, List.forall_mem_cons]
        refine ⟨?_, ih hits hrest⟩
        intro content' hc'
        obtain rfl := Option.some.inj (hc.symm.trans hc')
        rw [getValue_runIters hrest hhead, Function.update_self, AssArr.getValue_setValue harr,
          if_pos rfl]
      · simp [runIters, readFileIter_long hc hfit] at h

/-- The tests from `lo` to `up`. -/
def range (lo up : ℤ) : List (ℤ × FileKind) := iterations (up + 1 - lo).toNat lo

lemma readTests_isSome_iff (lo up : ℤ) :
    (src.readTests lo up).isSome ↔ ∀ it ∈ src.opened (range lo up), src.Fits it := by
  rw [readTests, packLoop_eq]
  exact runIters_isSome_iff _ _

lemma exists_packBoth (arrs : FileKind → AssArr CStr) : ∃ data, packBoth arrs = some data := by
  have htst : 0 ≤ assarrHash "tst".toList := by decide +kernel
  have hans : 0 ≤ assarrHash "ans".toList := by decide +kernel
  obtain ⟨arr, harr⟩ := Option.isSome_iff_exists.1
    ((AssArr.setValue_isSome (a := .create) (v := assarrPack (arrs .tst))).2 htst)
  obtain ⟨arr', harr'⟩ := Option.isSome_iff_exists.1
    ((AssArr.setValue_isSome (a := arr) (v := assarrPack (arrs .ans))).2 hans)
  refine ⟨assarrPack arr', ?_⟩
  rw [packBoth, harr, Option.bind_eq_bind, Option.bind_some, harr', Option.bind_some]
  rfl

/-- The whole answer is built inside of the buffers if and only if the loop is. -/
theorem packTestsForProblem_isSome_iff (lo up : ℤ) :
    (src.packTestsForProblem lo up).isSome ↔
      src.maxSize = 0 ∨ ∀ it ∈ src.opened (range lo up), src.Fits it := by
  rw [← readTests_isSome_iff, packTestsForProblem]
  split_ifs with hzero
  · simp [hzero]
  · rw [or_iff_right hzero]
    cases src.readTests lo up with
    | none => simp
    | some r =>
      obtain ⟨err, arrs⟩ := r
      cases err with
      | true => simp
      | false =>
        obtain ⟨data, hdata⟩ := exists_packBoth arrs
        simp [hdata]

/-- Every file is stored up to its first NUL or to the size of the buffer, inside of the buffer,
if and only if every file that is opened has a byte less than the buffer. -/
theorem stored_iff (src : Source) (lo up : ℤ) :
    (∃ err arrs, src.readTests lo up = some (err, arrs) ∧
      ∀ it ∈ src.opened (range lo up), ∀ content, src.content it.1 it.2 = some content →
        (arrs it.2).getValue (printLong it.1) =
          some ((content.take src.maxSize).takeWhile (· ≠ nul))) ↔
      ∀ it ∈ src.opened (range lo up), ∀ content, src.content it.1 it.2 = some content →
        content.length < src.maxSize := by
  constructor
  · rintro ⟨err, arrs, hread, -⟩
    exact (readTests_isSome_iff lo up).1 (Option.isSome_of_eq_some hread)
  · intro hfits
    obtain ⟨⟨err, arrs⟩, hread⟩ :=
      Option.isSome_iff_exists.1 ((readTests_isSome_iff lo up).2 hfits)
    refine ⟨err, arrs, hread, ?_⟩
    rw [readTests, packLoop_eq] at hread
    exact holds_runIters (nodup_iterations _ _) hread

/-- One test with an input and an answer of two bytes each, read with a size of two. -/
def fullBuffer : Source where
  fopen _ := some "ab".toList
  dataDir := "d".toList
  width := 2
  ext k := if k = .tst then ".tst".toList else ".ans".toList
  maxSize := 2

theorem full_file_outside_buffer :
    1 ≤ fullBuffer.maxSize ∧ ¬∃ err arrs, fullBuffer.readTests 1 1 = some (err, arrs) := by
  refine ⟨by decide, ?_⟩
  have hnone : fullBuffer.readTests 1 1 = none := by
    rw [readTests, packLoop_eq]
    rfl
  simp [hnone]

end Source

end WebTester.Informatics
