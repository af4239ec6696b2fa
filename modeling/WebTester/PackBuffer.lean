import WebTester.Packed
import WebTester.Transition

/-!
# The buffer of `assarr_pack`

The text is written into a block that grows by the size of an entry when the entry does not
fit. A write that would leave the block has no result. Sizes are natural numbers: the strings
of the array and the block are in memory at once, so that no sum of them leaves `size_t`.
-/
namespace WebTester.Assarr
open CString

/-- A block of `capacity` bytes with a string and its NUL. -/
structure Block where
  text : CStr
  capacity : ℕ
  fits : text.length < capacity

namespace Block

/-- `strcat`, where the block has the room. -/
def strcat (b : Block) (s : CStr) : Option Block :=
  if h : (b.text ++ s).length < b.capacity then some ⟨b.text ++ s, b.capacity, h⟩ else none

/-- `realloc` to a size that is larger by `n`. -/
def grow (b : Block) (n : ℕ) : Block where
  text := b.text
  capacity := b.capacity + n
  fits := Nat.lt_add_right n b.fits

/-- The calls of `strcat` one after the other. -/
def strcats (b : Block) : List CStr → Option Block
  | [] => some b
  | s :: ss => (b.strcat s).bind fun b => b.strcats ss

/-- Calls of `strcat` stay in the block if all the text does. -/
lemma strcats_eq {b : Block} {ss : List CStr}
    (h : (b.text ++ ss.flatten).length < b.capacity) :
    b.strcats ss = some ⟨b.text ++ ss.flatten, b.capacity, h⟩ := by
  induction ss generalizing b with
  | nil => simp [strcats]
  | cons s ss ih =>
    have hs : (b.text ++ s).length < b.capacity := by
      simp only [List.flatten_cons, List.length_append] at h ⊢
      omega
    rw [strcats, strcat, dif_pos hs, Option.bind_some, ih (by simpa using h)]
    simp

end Block

/-- The variables of `assarr_pack`; `capacity` is the size of the block. -/
structure PackBuffer where
  out : Block
  len : ℕ

namespace PackBuffer

def start : PackBuffer := ⟨⟨[], 1024, Nat.succ_pos 1023⟩, 0⟩

/-- `add_len` for an entry, whose value is of the length that is written in `buf`. -/
def addLen (buf : CStr) (e : CStr × CStr) : ℕ :=
  e.1.length + buf.length + e.2.length + 3

/-- The block before an entry is written. -/
def room (p : PackBuffer) (addLen : ℕ) : Block :=
  if p.out.capacity - 1 < p.len + addLen then p.out.grow addLen else p.out

/-- One iteration of the loop. -/
def step (p : PackBuffer) (e : CStr × CStr) : Option PackBuffer :=
  let buf := decimal (e.2.length % 2 ^ 32)
  let out := p.room (addLen buf e)
  (out.strcats [e.1, [';'], buf, [';'], e.2, [';']]).map fun out => ⟨out, p.len + addLen buf e⟩

/-- The loop over entries. -/
def loop (es : List (CStr × CStr)) : Option PackBuffer := es.foldlM step start

/-- `len` is the length of the string. -/
def Counted (p : PackBuffer) : Prop := p.out.text.length = p.len

lemma Counted.len_le {p : PackBuffer} (hp : p.Counted) : p.len ≤ p.out.capacity - 1 := by
  have h := p.out.fits
  rw [hp] at h
  omega

@[simp] lemma room_text (p : PackBuffer) (n : ℕ) : (p.room n).text = p.out.text := by
  unfold room
  split <;> rfl

/-- The block grows only by the size of an entry, and that is enough. -/
lemma Counted.room_lt {p : PackBuffer} (hp : p.Counted) (n : ℕ) :
    p.len + n < (p.room n).capacity := by
  have hlen := hp.len_le
  have hfits := p.out.fits
  unfold room
  split
  · show p.len + n < p.out.capacity + n
    omega
  · omega

lemma length_packEntry (buf : CStr) (e : CStr × CStr) :
    (packEntry buf e).length = addLen buf e := by
  simp only [packEntry, addLen, List.length_append, List.length_cons, List.length_nil]
  omega

/-- An iteration adds the text of its entry. -/
lemma Counted.step {p : PackBuffer} (hp : p.Counted) (e : CStr × CStr) :
    ∃ q, p.step e = some q ∧ q.Counted ∧
      q.out.text = p.out.text ++ packEntry (decimal (e.2.length % 2 ^ 32)) e := by
  unfold PackBuffer.step
  extract_lets buf out
  have htext : [e.1, [';'], buf, [';'], e.2, [';']].flatten = packEntry buf e := by
    simp [packEntry]
  have hlen : (out.text ++ [e.1, [';'], buf, [';'], e.2, [';']].flatten).length
      = p.len + addLen buf e := by
    rw [htext, List.length_append, length_packEntry, room_text, hp]
  have hroom : p.len + addLen buf e < out.capacity := hp.room_lt _
  have hfits := hlen.trans_lt hroom
  refine ⟨⟨⟨_, _, hfits⟩, p.len + addLen buf e⟩, ?_, hlen, ?_⟩
  · rw [Block.strcats_eq hfits, Option.map_some]
  · show out.text ++ _ = _
    rw [htext, room_text]

/-- The invariant of the loop. -/
lemma loop_spec (es : List (CStr × CStr)) :
    ∃ p, loop es = some p ∧ p.Counted ∧
      p.out.text = es.flatMap fun e => packEntry (decimal (e.2.length % 2 ^ 32)) e := by
  induction es using List.reverseRecOn with
  | nil => exact ⟨start, rfl, rfl, rfl⟩
  | append_singleton es e ih =>
    obtain ⟨p, hp, hcount, htext⟩ := ih
    obtain ⟨q, hq, hcount', htext'⟩ := hcount.step e
    refine ⟨q, ?_, hcount', ?_⟩
    · unfold loop at hp ⊢
      rw [Transition.foldlM_concat, hp, Option.bind_some, hq]
    · rw [htext', htext, List.flatMap_append]
      simp

end PackBuffer

/-- `assarr_pack` with its buffer. -/
def packBuffer (a : AssArr CStr) : Option PackBuffer := PackBuffer.loop a.entries

/-- No write leaves the block: after any number of iterations the text and its NUL are in it.
At the end the text is the packed array, and `len` is its length. -/
theorem packBuffer_fits (a : AssArr CStr) :
    (∀ n, ∃ p, PackBuffer.loop (a.entries.take n) = some p ∧
      p.len ≤ p.out.capacity - 1 ∧ p.out.text.length = p.len) ∧
    ∃ p, packBuffer a = some p ∧ p.out.text = assarrPack a ∧ p.out.text.length = p.len := by
  constructor
  · intro n
    obtain ⟨p, hp, hcount, -⟩ := PackBuffer.loop_spec (a.entries.take n)
    exact ⟨p, hp, hcount.len_le, hcount⟩
  · obtain ⟨p, hp, hcount, htext⟩ := PackBuffer.loop_spec a.entries
    refine ⟨p, ?_, ?_, hcount⟩
    · rw [packBuffer, hp]
    · rw [htext, assarrPack]

end WebTester.Assarr
