import Mathlib.Data.List.Basic

/-!
# Attributes of netlink messages

An attribute is a header with its length and its type, a payload, and a padding that aligns what
follows. The length counts the header and the payload. The fields of the header are words of two
bytes, the less significant one first.
-/
namespace WebTester.Attributes

/-- `NLA_HDRLEN`. -/
def hdrlen : ℕ := 4

/-- `NLA_ALIGN`. -/
def align (len : ℕ) : ℕ := (len + 3) / 4 * 4

structure Header where
  len : ℕ
  type : ℕ
  deriving DecidableEq

/-- Reads a header; there is none where the memory ends before it does. -/
def header (mem : List UInt8) (place : ℕ) : Option Header :=
  match mem.drop place with
  | a :: b :: c :: d :: _ => some ⟨a.toNat + 256 * b.toNat, c.toNat + 256 * d.toNat⟩
  | _ => none

structure Attr where
  type : ℕ
  payload : List UInt8
  pad : List UInt8
  type_lt : type < 65536
  fits : hdrlen + payload.length < 65536
  padded : hdrlen + payload.length + pad.length = align (hdrlen + payload.length)

namespace Attr

def len (a : Attr) : ℕ := hdrlen + a.payload.length

/-- The bytes from an attribute to the next. -/
def size (a : Attr) : ℕ := align a.len

def word (n : ℕ) : List UInt8 := [UInt8.ofNat n, UInt8.ofNat (n / 256)]

def bytes (a : Attr) : List UInt8 := word a.len ++ word a.type ++ (a.payload ++ a.pad)

lemma length_bytes (a : Attr) : a.bytes.length = a.size := by
  have hpadded := a.padded
  simp only [bytes, word, List.length_append, List.length_cons, List.length_nil]
  unfold hdrlen at hpadded
  unfold size len hdrlen
  omega

lemma hdrlen_le_size (a : Attr) : hdrlen ≤ a.size := by
  have hpadded := a.padded
  unfold size len
  omega

lemma toNat_word {n : ℕ} (h : n < 65536) :
    (UInt8.ofNat n).toNat + 256 * (UInt8.ofNat (n / 256)).toNat = n := by
  rw [UInt8.toNat_ofNat', UInt8.toNat_ofNat']
  omega

/-- The header of an attribute in a message. -/
lemma header_bytes {pre post : List UInt8} (a : Attr) :
    header (pre ++ a.bytes ++ post) pre.length = some ⟨a.len, a.type⟩ := by
  have hlen : a.len < 65536 := a.fits
  have hdrop : (pre ++ a.bytes ++ post).drop pre.length =
      UInt8.ofNat a.len :: UInt8.ofNat (a.len / 256) :: UInt8.ofNat a.type ::
        UInt8.ofNat (a.type / 256) :: (a.payload ++ a.pad ++ post) := by
    rw [List.append_assoc, List.drop_left]
    simp [bytes, word]
  rw [header, hdrop]
  simp only [toNat_word hlen, toNat_word a.type_lt]

end Attr

/-- The bytes of attributes one after the other. -/
def bytes (as : List Attr) : List UInt8 := as.flatMap Attr.bytes

@[simp] lemma bytes_nil : bytes [] = [] := rfl

@[simp] lemma bytes_cons (a : Attr) (as : List Attr) : bytes (a :: as) = a.bytes ++ bytes as := rfl

/-- The attributes with their places, from a place on. -/
def places : ℕ → List Attr → List (ℕ × Attr)
  | _, [] => []
  | o, a :: as => (o, a) :: places (o + a.size) as


/-- Behind its header an attribute has its payload. -/
lemma payload_of_mem_places {o p : ℕ} {a : Attr} {as : List Attr} {pre post : List UInt8}
    (hpre : pre.length = o) (h : (p, a) ∈ places o as) :
    ((pre ++ bytes as ++ post).drop (p + hdrlen)).take a.payload.length = a.payload := by
  induction as generalizing o pre with
  | nil => simp [places] at h
  | cons b as ih =>
    rw [places, List.mem_cons] at h
    rcases h with h | h
    · obtain ⟨rfl, rfl⟩ := Prod.mk.inj h
      have hbytes : pre ++ bytes (a :: as) ++ post =
          (pre ++ (Attr.word a.len ++ Attr.word a.type)) ++
            (a.payload ++ (a.pad ++ bytes as ++ post)) := by
        simp [Attr.bytes]
      have hlength : (pre ++ (Attr.word a.len ++ Attr.word a.type)).length = p + hdrlen := by
        simp [Attr.word, hdrlen, hpre]
      rw [hbytes, ← hlength, List.drop_left, List.take_left]
    · have hlength : (pre ++ b.bytes).length = o + b.size := by
        rw [List.length_append, hpre, b.length_bytes]
      have hbytes : pre ++ bytes (b :: as) ++ post = (pre ++ b.bytes) ++ bytes as ++ post := by
        simp
      rw [hbytes]
      exact ih hlength h

end WebTester.Attributes
