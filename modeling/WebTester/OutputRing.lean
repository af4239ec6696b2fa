import WebTester.CString
import WebTester.Transition
import Mathlib.Logic.Function.Basic

/-!
# The history of the output

`push_line` keeps the lines that `core_print` writes in a ring, and `core_output_buffer` copies
them in order to another array, from the last one on. The number of lines is counted beyond the
size of the ring. An index that is not in an array has no defined effect; the counter is an
`int` and wraps. A line is what is left of it in the buffer of 65536 bytes.
-/
namespace WebTester.OutputRing
open CString Transition

/-- `CORE_OUTPUT_LINES`. -/
def coreOutputLines : ℕ := 256

/-- The static variables of the module. A line that is not set is NULL. -/
structure Ring where
  lines : ℕ → Option CStr
  sortedLines : ℕ → Option CStr
  linesPtr : ℕ
  linesCount : ℤ
  linesSorted : Bool

namespace Ring

def start : Ring := ⟨fun _ => none, fun _ => none, 0, 0, false⟩

/-- `push_line`. -/
def pushLine (r : Ring) (text : CStr) : Option Ring :=
  if r.linesPtr < coreOutputLines then some { r with
    lines := Function.update r.lines r.linesPtr (some text)
    linesPtr := (r.linesPtr + 1) % coreOutputLines
    linesCount := toInt (r.linesCount + 1)
    linesSorted := false }
  else none

/-- The loop of `core_output_buffer` from the index below `i` on. -/
def sortFrom (lines : ℕ → Option CStr) : ℕ → ℤ → (ℕ → Option CStr) → Option (ℕ → Option CStr)
  | 0, _, sorted => some sorted
  | i + 1, ptr, sorted =>
    if i < coreOutputLines ∧ 0 ≤ ptr ∧ ptr < coreOutputLines then
      sortFrom lines i (if ptr - 1 < 0 then coreOutputLines - 1 else ptr - 1)
        (Function.update sorted i (lines ptr.toNat))
    else none

/-- `core_output_buffer`; it returns `sortedLines` and reports `linesCount`. -/
def coreOutputBuffer (r : Ring) : Option Ring :=
  if r.linesSorted then some r
  else do
    let sorted ← sortFrom r.lines r.linesCount.toNat (r.linesPtr - 1) fun _ => none
    some { r with sortedLines := sorted, linesSorted := true }

end Ring

/-- What is called. -/
inductive Op
  | push (text : CStr)
  | output
  deriving DecidableEq, Repr

def step (r : Ring) : Op → Option Ring
  | .push text => r.pushLine text
  | .output => r.coreOutputBuffer

/-- A sequence of calls. -/
def run (ops : List Op) : Option Ring := ops.foldlM step .start

def Op.line : Op → Option CStr
  | .push text => some text
  | .output => none

/-- The lines that were pushed. -/
def pushed (ops : List Op) : List CStr := ops.filterMap Op.line

/-- The last lines, as many as the ring can hold. -/
def lastLines (texts : List CStr) : List CStr := texts.drop (texts.length - coreOutputLines)

/-- The call of `core_output_buffer` after others returns the last lines in order with their
number. -/
def OutputRight (ops : List Op) : Prop :=
  ∃ r, (run ops).bind Ring.coreOutputBuffer = some r ∧
    r.linesCount = (lastLines (pushed ops)).length ∧
    ∀ i < coreOutputLines, r.sortedLines i = (lastLines (pushed ops))[i]?

/-- No call uses an index that is not in its array, and all outputs are right. -/
def Right (ops : List Op) : Prop :=
  (run ops).isSome ∧ Throughout (fun pre op => op = .output → OutputRight pre) ops

/-! ## The ring -/

/-- What is true after the given lines were pushed. Less is said of a ring that went round. -/
structure Holds (texts : List CStr) (r : Ring) : Prop where
  ptr : r.linesPtr = texts.length % coreOutputLines
  count : r.linesCount = toInt texts.length
  full : r.linesSorted = true → r.linesCount ≠ coreOutputLines
  lines : texts.length < coreOutputLines → ∀ i, r.lines i = texts[i]?
  sorted : texts.length < coreOutputLines → r.linesSorted = true → ∀ i, r.sortedLines i = texts[i]?

variable {texts : List CStr} {r r' : Ring} {ops : List Op}

lemma holds_start : Holds [] .start where
  ptr := rfl
  count := rfl
  full h := by cases h
  lines _ _ := rfl
  sorted _ h := by cases h

/-- A line is always pushed into the ring. -/
lemma Holds.pushLine (h : Holds texts r) (text : CStr) :
    ∃ r', r.pushLine text = some r' ∧ Holds (texts ++ [text]) r' := by
  have hn : coreOutputLines = 256 := rfl
  have hptr : r.linesPtr = texts.length % 256 := h.ptr
  have hlt : r.linesPtr < coreOutputLines := by omega
  refine ⟨_, if_pos hlt, ?_, ?_, ?_, fun hlen i => ?_, ?_⟩
  · show (r.linesPtr + 1) % 256 = (texts ++ [text]).length % 256
    rw [List.length_append, List.length_singleton]
    omega
  · show toInt (r.linesCount + 1) = _
    rw [h.count, List.length_append, List.length_singleton, toInt, toInt, Int.bmod_add_bmod]
    rfl
  · intro hs
    cases hs
  · rw [List.length_append, List.length_singleton] at hlen
    show Function.update r.lines r.linesPtr (some text) i = _
    have hend : r.linesPtr = texts.length := by omega
    have hlines := h.lines (by omega) i
    by_cases hi : i = texts.length
    · subst hi
      rw [hend, Function.update_self, List.getElem?_concat_length]
    · rw [hend, Function.update_of_ne hi, hlines, List.getElem?_append]
      split
      · rfl
      · rw [List.getElem?_eq_none (by omega), List.getElem?_eq_none (by simp; omega)]
  · intro _ hs
    cases hs

/-- The loop copies the lines of a ring that did not go round. -/
lemma sortFrom_spec (lines : ℕ → Option CStr) {n : ℕ} (hn : n < coreOutputLines) {ptr : ℤ}
    (hptr : n ≠ 0 → ptr = n - 1) (sorted : ℕ → Option CStr) :
    Ring.sortFrom lines n ptr sorted = some fun i => if i < n then lines i else sorted i := by
  induction n generalizing ptr sorted with
  | zero =>
    simp [Ring.sortFrom]
  | succ n ih =>
    have hlast : ptr = n := by
      have := hptr (by omega)
      push_cast at this
      omega
    subst hlast
    rw [Ring.sortFrom, if_pos ⟨by omega, by omega, by omega⟩, ih (by omega)]
    · congr 1
      ext1 i
      rcases lt_trichotomy i n with hi | rfl | hi
      · rw [if_pos hi, if_pos (by omega)]
      · rw [if_neg (lt_irrefl i), if_pos (by omega), Function.update_self, Int.toNat_natCast]
      · rw [if_neg (by omega), if_neg (by omega), Function.update_of_ne (by omega)]
    · intro hne
      rw [if_neg (by omega)]

/-- A ring that is full has its pointer at the beginning, and the line before it is looked for
outside. -/
lemma sortFrom_full (lines sorted : ℕ → Option CStr) :
    Ring.sortFrom lines coreOutputLines (-1) sorted = none := rfl

/-- The loop of a ring that did not go round. -/
lemma Holds.sortFrom_eq (h : Holds texts r) (hlen : texts.length < coreOutputLines) :
    Ring.sortFrom r.lines r.linesCount.toNat (r.linesPtr - 1) (fun _ => none) =
      some fun i => texts[i]? := by
  have hn : coreOutputLines = 256 := rfl
  have hptr : r.linesPtr = texts.length % 256 := h.ptr
  have hcount : r.linesCount.toNat = texts.length := by
    rw [h.count, toInt_natCast (by omega), Int.toNat_natCast]
  rw [hcount, sortFrom_spec r.lines hlen (fun _ => by omega)]
  congr 1
  ext1 i
  rw [h.lines hlen i]
  split
  · rfl
  · rw [List.getElem?_eq_none (by omega)]

/-- The loop of a ring that has just gone round. -/
lemma Holds.sortFrom_full (h : Holds texts r) (hfull : r.linesCount = coreOutputLines) :
    Ring.sortFrom r.lines r.linesCount.toNat (r.linesPtr - 1) (fun _ => none) = none := by
  have hn : coreOutputLines = 256 := rfl
  have hptr : r.linesPtr = texts.length % 256 := h.ptr
  have hmod : toInt texts.length % 2 ^ 32 = texts.length % 2 ^ 32 := Int.bmod_emod
  rw [← h.count, hfull] at hmod
  have hzero : ((r.linesPtr : ℤ) - 1) = -1 := by omega
  rw [hfull, hzero]
  exact OutputRing.sortFrom_full _ _

/-- An output that goes through keeps the invariant. -/
lemma Holds.coreOutputBuffer (h : Holds texts r) (hr : r.coreOutputBuffer = some r') :
    Holds texts r' ∧ r'.linesSorted = true := by
  unfold Ring.coreOutputBuffer at hr
  split at hr
  · next hs =>
    cases hr
    exact ⟨h, hs⟩
  · rw [Option.bind_eq_bind, Option.bind_eq_some_iff] at hr
    obtain ⟨sorted, hsort, heq⟩ := hr
    cases heq
    refine ⟨⟨h.ptr, h.count, fun _ hfull => ?_, h.lines, fun hlen _ i => ?_⟩, rfl⟩
    · rw [h.sortFrom_full hfull] at hsort
      cases hsort
    · rw [h.sortFrom_eq hlen] at hsort
      cases hsort
      rfl

/-- After fewer lines than the ring has room for an output goes through. -/
lemma Holds.exists_output (h : Holds texts r) (hlen : texts.length < coreOutputLines) :
    ∃ r', r.coreOutputBuffer = some r' := by
  unfold Ring.coreOutputBuffer
  split
  · exact ⟨r, rfl⟩
  · rw [h.sortFrom_eq hlen]
    exact ⟨_, rfl⟩

/-! ## Runs -/

lemma run_concat (ops : List Op) (op : Op) :
    run (ops ++ [op]) = (run ops).bind fun r => step r op := foldlM_concat step .start ops op

lemma pushed_push (ops : List Op) (text : CStr) :
    pushed (ops ++ [.push text]) = pushed ops ++ [text] := by
  rw [pushed, List.filterMap_append]
  rfl

lemma pushed_output (ops : List Op) : pushed (ops ++ [.output]) = pushed ops := by
  rw [pushed, List.filterMap_append]
  exact List.append_nil _

/-- The invariant of every run. -/
lemma run_holds (hr : run ops = some r) : Holds (pushed ops) r := by
  induction ops using List.reverseRecOn generalizing r with
  | nil =>
    cases hr
    exact holds_start
  | append_singleton ops op ih =>
    rw [run_concat, Option.bind_eq_some_iff] at hr
    obtain ⟨q, hq, hstep⟩ := hr
    cases op with
    | push text =>
      obtain ⟨r', hr', hholds⟩ := (ih hq).pushLine text
      rw [step, hr'] at hstep
      cases hstep
      rw [pushed_push]
      exact hholds
    | output =>
      rw [pushed_output]
      exact ((ih hq).coreOutputBuffer hstep).1

/-- An output after fewer lines than the ring has room for is right. -/
lemma outputRight_of_lt (hr : run ops = some r) (hlen : (pushed ops).length < coreOutputLines) :
    OutputRight ops := by
  have hn : coreOutputLines = 256 := rfl
  have hholds := run_holds hr
  obtain ⟨r', hr'⟩ := hholds.exists_output hlen
  obtain ⟨hholds', hsorted⟩ := hholds.coreOutputBuffer hr'
  have hlast : lastLines (pushed ops) = pushed ops := by
    rw [lastLines, Nat.sub_eq_zero_of_le hlen.le, List.drop_zero]
  refine ⟨r', by rw [hr, Option.bind_some, hr'], ?_, fun i _ => ?_⟩
  · rw [hlast, hholds'.count, toInt_natCast (by omega)]
  · rw [hlast]
    exact hholds'.sorted hlen hsorted i

/-- An output after as many lines as the ring has room for is wrong. -/
lemma not_outputRight (hlen : coreOutputLines ≤ (pushed ops).length) : ¬OutputRight ops := by
  rintro ⟨r', hr', hcount, -⟩
  obtain ⟨r, hr, hout⟩ := Option.bind_eq_some_iff.1 hr'
  obtain ⟨hholds, hsorted⟩ := (run_holds hr).coreOutputBuffer hout
  have hlast : (lastLines (pushed ops)).length = coreOutputLines := by
    rw [lastLines, List.length_drop]
    omega
  rw [hlast] at hcount
  exact hholds.full hsorted hcount

/-- Every line is pushed into the ring, and outputs are right if and only if each of them comes
after fewer lines than the ring has room for. -/
theorem right_iff_few (ops : List Op) :
    Right ops ↔
      Throughout (fun pre op => op = .output → (pushed pre).length < coreOutputLines) ops := by
  constructor
  · intro h pre op post heq hop
    by_contra hlen
    exact not_outputRight (not_lt.1 hlen) (h.2 pre op post heq hop)
  · intro h
    induction ops using List.reverseRecOn with
    | nil => exact ⟨rfl, .nil⟩
    | append_singleton ops op ih =>
      obtain ⟨hrun, hright⟩ := ih fun pre op' post heq =>
        h pre op' (post ++ [op]) (by rw [heq]; simp)
      obtain ⟨r, hr⟩ := Option.isSome_iff_exists.1 hrun
      have hlast : op = .output → OutputRight ops := fun hop =>
        outputRight_of_lt hr (h ops op [] rfl hop)
      refine ⟨?_, hright.concat hlast⟩
      rw [run_concat, hr, Option.bind_some]
      cases op with
      | push text =>
        obtain ⟨r', hr', -⟩ := (run_holds hr).pushLine text
        rw [step, hr']
        rfl
      | output =>
        obtain ⟨r', hr', -⟩ := hlast rfl
        rw [hr, Option.bind_some] at hr'
        rw [step, hr']
        rfl

/-- When the ring is full the line before the first one is read. -/
lemma run_output_full (hlen : (pushed ops).length = coreOutputLines) :
    run (ops ++ [.output]) = none := by
  rw [run_concat, Option.bind_eq_none_iff]
  intro r hr
  by_contra hne
  obtain ⟨r', hr'⟩ := Option.ne_none_iff_exists'.1 hne
  obtain ⟨hholds, hsorted⟩ := (run_holds hr).coreOutputBuffer hr'
  have hcount := hholds.count
  rw [hlen] at hcount
  exact hholds.full hsorted (hcount.trans (toInt_natCast (by decide)))

/-- 256 lines and an output. -/
theorem not_right_full :
    run (List.replicate 256 (.push ['x']) ++ [.output]) = none ∧
      ¬Right (List.replicate 256 (.push ['x']) ++ [.output]) := by
  have hline : (Op.push ['x']).line = some ['x'] := rfl
  have hlen : (pushed (List.replicate 256 (.push ['x']))).length = coreOutputLines := by
    rw [pushed, List.filterMap_replicate_of_some hline, List.length_replicate]
    rfl
  have hnone := run_output_full hlen
  refine ⟨hnone, fun h => ?_⟩
  have hsome := h.1
  rw [hnone] at hsome
  cases hsome

end WebTester.OutputRing
