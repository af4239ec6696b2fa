import WebTester.CString
import WebTester.Transition

/-!
# Buffers of a task

A testing module writes a log and messages for the core into arrays of a task, and
`belts_overview_status` prints a message that it finds. The number of characters that an append
may add is the unsigned value of `strlen (buffer) - MAXTASKBUF - 1`. What was printed is to be
cleared by appending an empty text.
-/
namespace WebTester.TaskBuffers
open CString Transition

def maxTaskBuf : ℕ := 4096

/-- A text with its NUL in an array of `MAXTASKBUF` bytes. -/
structure Buffer where
  text : CStr
  fits : text.length < maxTaskBuf

namespace Buffer

/-- The arrays of a new task are zeroed. -/
def empty : Buffer := ⟨[], by decide⟩

/-- `strncpy` of at most `MAXTASKBUF - 1` characters; the last byte stays 0. -/
def strncpy (src : CStr) : Buffer where
  text := src.take (maxTaskBuf - 1)
  fits := by
    rw [List.length_take]
    have : 0 < maxTaskBuf := by decide
    omega

/-- `strncat`, unless it writes behind the array. -/
def strncat (dest : Buffer) (src : CStr) (n : ℕ) : Option Buffer :=
  if h : (dest.text ++ src.take n).length < maxTaskBuf then some ⟨dest.text ++ src.take n, h⟩
  else none

/-- `strlen (buffer) - MAXTASKBUF - 1`, a `size_t`. -/
def room (dest : Buffer) : ℕ := (dest.text.length + 2 ^ 64 - maxTaskBuf - 1) % 2 ^ 64

variable {b c : Buffer} {src : CStr}

/-- The number has wrapped around: it bounds nothing. -/
lemma maxTaskBuf_le_room (b : Buffer) : maxTaskBuf ≤ b.room := by
  have hfits := b.fits
  unfold maxTaskBuf at hfits
  unfold room maxTaskBuf
  omega

lemma strncat_room_isSome :
    (b.strncat src b.room).isSome ↔ b.text.length + src.length < maxTaskBuf := by
  have hroom := maxTaskBuf_le_room b
  have hlen : (b.text ++ src.take b.room).length < maxTaskBuf ↔
      b.text.length + src.length < maxTaskBuf := by
    rw [List.length_append, List.length_take]
    omega
  rw [← hlen, strncat]
  split_ifs with h
  · exact iff_of_true rfl h
  · exact iff_of_false Bool.false_ne_true h

lemma strncat_nil (b : Buffer) (n : ℕ) : b.strncat [] n = some b := by
  simp [strncat, b.fits]

end Buffer

/-- A pass that has printed: which message, its text, and what it leaves in the pipe. -/
structure Pass where
  message : ℕ
  text : CStr
  left : CStr
  deriving DecidableEq, Repr

/-- The buffers of a task, how often the pipe was written, and the passes that have printed. -/
structure State where
  log : Buffer
  pipe : Buffer
  message : ℕ
  passes : List Pass

/-- The arrays that `wt_spawn_new_task` has zeroed. -/
def initial : State := ⟨.empty, .empty, 0, []⟩

/-- `TASK_LOG`, `TASK_BUFFER_SET` and `TASK_BUFFER_APPEND` of a testing module, and a pass of
`belts_overview_status`. -/
inductive Event
  | log (text : CStr)
  | bufferSet (text : CStr)
  | bufferAppend (text : CStr)
  | overview
  deriving DecidableEq, Repr

namespace State

/-- `TASK_LOG` prints into a buffer of 65536 bytes first. -/
def taskLog (s : State) (text : CStr) : Option State :=
  if text.length < 65536 then
    (s.log.strncat text s.log.room).map fun log => { s with log := log }
  else none

/-- `TASK_BUFFER_SET`. -/
def taskBufferSet (s : State) (text : CStr) : State :=
  { s with pipe := .strncpy text, message := s.message + 1 }

/-- `TASK_BUFFER_APPEND`. -/
def taskBufferAppend (s : State) (text : CStr) : Option State :=
  (s.pipe.strncat text s.pipe.room).map fun pipe =>
    { s with pipe := pipe, message := s.message + 1 }

/-- `TASK_BUFFER_SET_LOCKED`, which appends. -/
def taskBufferSetLocked (s : State) (text : CStr) : Option State :=
  (s.pipe.strncat text s.pipe.room).map fun pipe => { s with pipe := pipe }

/-- `TASK_FREE_BUFFER_LOCKED`. -/
def taskFreeBufferLocked (s : State) : Option State := s.taskBufferSetLocked []

/-- The part of `belts_overview_status` that prints a message. -/
def overviewPass (s : State) : Option State :=
  if s.pipe.text = [] then some s
  else s.taskFreeBufferLocked.map fun t =>
    { t with passes := t.passes ++ [⟨s.message, s.pipe.text, t.pipe.text⟩] }

def step (s : State) : Event → Option State
  | .log text => s.taskLog text
  | .bufferSet text => some (s.taskBufferSet text)
  | .bufferAppend text => s.taskBufferAppend text
  | .overview => s.overviewPass

/-- No message was printed twice, and the pipe was empty after every pass that has printed. -/
def Delivered (s : State) : Prop :=
  (s.passes.map Pass.message).Nodup ∧ ∀ p ∈ s.passes, p.left = []

end State

/-- A text is appended where it fits; a pass finds the pipe empty. -/
def Room (s : State) : Event → Prop
  | .log text => s.log.text.length + text.length < maxTaskBuf
  | .bufferSet _ => True
  | .bufferAppend text => s.pipe.text.length + text.length < maxTaskBuf
  | .overview => s.pipe.text = []

variable {s t : State} {e : Event} {es : List Event}

/-- The macro that is meant to clear the pipe changes nothing. -/
lemma taskFreeBufferLocked_eq (s : State) : s.taskFreeBufferLocked = some s := by
  rw [State.taskFreeBufferLocked, State.taskBufferSetLocked, Buffer.strncat_nil, Option.map_some]

lemma overviewPass_eq (s : State) : s.overviewPass =
    some (if s.pipe.text = [] then s
      else { s with passes := s.passes ++ [⟨s.message, s.pipe.text, s.pipe.text⟩] }) := by
  rw [State.overviewPass, taskFreeBufferLocked_eq]
  split_ifs <;> rfl

lemma taskLog_isSome {text : CStr} :
    (s.taskLog text).isSome ↔ s.log.text.length + text.length < maxTaskBuf := by
  unfold State.taskLog
  split_ifs with hbuf
  · rw [Option.isSome_map, Buffer.strncat_room_isSome]
  · have hmax : maxTaskBuf ≤ 65536 := by decide
    simp only [Option.isSome_none, Bool.false_eq_true, false_iff]
    omega

/-- Only the passes of a state that prints are changed. -/
lemma passes_step (h : s.step e = some t) (he : e ≠ .overview) : t.passes = s.passes := by
  cases e with
  | log text =>
    simp only [State.step, State.taskLog] at h
    split_ifs at h
    obtain ⟨log, -, rfl⟩ := Option.map_eq_some_iff.1 h
    rfl
  | bufferSet text =>
    obtain rfl := Option.some.inj h
    rfl
  | bufferAppend text =>
    obtain ⟨pipe, -, rfl⟩ := Option.map_eq_some_iff.1 h
    rfl
  | overview => exact absurd rfl he

lemma passes_subset (h : s.step e = some t) : s.passes ⊆ t.passes := by
  by_cases he : e = .overview
  · subst he
    rw [State.step, overviewPass_eq] at h
    obtain rfl := Option.some.inj h
    split_ifs
    · exact List.Subset.refl _
    · exact List.subset_append_left _ _
  · rw [passes_step h he]
    exact List.Subset.refl _

/-- A step that leaves the pipe empty after printing has had room. -/
lemma room_of_step (h : s.step e = some t) (hleft : ∀ p ∈ t.passes, p.left = []) : Room s e := by
  cases e with
  | log text => exact taskLog_isSome.1 (Option.isSome_of_eq_some h)
  | bufferSet text => exact trivial
  | bufferAppend text =>
    have hsome : (s.taskBufferAppend text).isSome := Option.isSome_of_eq_some h
    rw [State.taskBufferAppend, Option.isSome_map] at hsome
    exact Buffer.strncat_room_isSome.1 hsome
  | overview =>
    by_contra hpipe
    rw [Room] at hpipe
    rw [State.step, overviewPass_eq, if_neg hpipe] at h
    obtain rfl := Option.some.inj h
    exact hpipe (hleft ⟨s.message, s.pipe.text, s.pipe.text⟩ (by simp))

end WebTester.TaskBuffers
