import Mathlib.Data.List.Induction
import Mathlib.Tactic.IntervalCases
import WebTester.BlockStream
import WebTester.Transition

/-!
# MD5

A context takes the bytes of a message in parts, `md5_update` for each, and `md5_final` pads what
came and gives the digest. The bits are counted in two words, blocks of 64 bytes go through
`md5_transform`, and the bytes behind the last whole block wait in the buffer. The length of a part
is an `unsigned int`.
-/
namespace WebTester.Md5
open BlockStream

/-- `unsigned int`. -/
abbrev Word := BitVec 32

abbrev Digest := Vector UInt8 16

/-- `md5_ctx_t`. -/
structure Ctx where
  state : Vector Word 4
  count : Vector Word 2
  buffer : Vector UInt8 64
  deriving DecidableEq, Repr

/-! ## The transformation of a block -/

def s11 : ℕ := 7
def s12 : ℕ := 12
def s13 : ℕ := 17
def s14 : ℕ := 22
def s21 : ℕ := 5
def s22 : ℕ := 9
def s23 : ℕ := 14
def s24 : ℕ := 20
def s31 : ℕ := 4
def s32 : ℕ := 11
def s33 : ℕ := 16
def s34 : ℕ := 23
def s41 : ℕ := 6
def s42 : ℕ := 10
def s43 : ℕ := 15
def s44 : ℕ := 21

/-- `ROTATE_LEFT`. -/
def rotateLeft (x : Word) (n : ℕ) : Word := (x <<< n) ||| (x >>> (32 - n))

/-- `F`. -/
def auxF (x y z : Word) : Word := (x &&& y) ||| (~~~x &&& z)

/-- `G`. -/
def auxG (x y z : Word) : Word := (x &&& z) ||| (y &&& ~~~z)

/-- `H`. -/
def auxH (x y z : Word) : Word := x ^^^ y ^^^ z

/-- `I`. -/
def auxI (x y z : Word) : Word := y ^^^ (x ||| ~~~z)

/-- What `FF`, `GG`, `HH` and `II` have in common. -/
def round (fn : Word → Word → Word → Word) (a b c d x : Word) (s : ℕ) (ac : Word) : Word :=
  rotateLeft (a + (fn b c d + x + ac)) s + b

/-- `FF`. -/
def ff := round auxF

/-- `GG`. -/
def gg := round auxG

/-- `HH`. -/
def hh := round auxH

/-- `II`. -/
def ii := round auxI

/-- `md5_decode`: words of four bytes, the lowest first. -/
def md5Decode {n : ℕ} (input : Vector UInt8 (n * 4)) : Vector Word n :=
  Vector.ofFn fun i =>
    BitVec.ofNat 32 (input.get ⟨i * 4, by omega⟩).toNat |||
    BitVec.ofNat 32 (input.get ⟨i * 4 + 1, by omega⟩).toNat <<< 8 |||
    BitVec.ofNat 32 (input.get ⟨i * 4 + 2, by omega⟩).toNat <<< 16 |||
    BitVec.ofNat 32 (input.get ⟨i * 4 + 3, by omega⟩).toNat <<< 24

/-- What an iteration of `md5_encode` writes. -/
def wordBytes (w : Word) : Vector UInt8 4 := #v[
  UInt8.ofNat (w &&& 0xff).toNat,
  UInt8.ofNat ((w >>> 8) &&& 0xff).toNat,
  UInt8.ofNat ((w >>> 16) &&& 0xff).toNat,
  UInt8.ofNat ((w >>> 24) &&& 0xff).toNat]

/-- `md5_encode`. -/
def md5Encode {n : ℕ} (input : Vector Word n) : Vector UInt8 (n * 4) := input.flatMap wordBytes

/-- `md5_transform`. -/
def md5Transform (state : Vector Word 4) (block : Vector UInt8 64) : Vector Word 4 :=
  let a := state[0]
  let b := state[1]
  let c := state[2]
  let d := state[3]
  let x : Vector Word 16 := md5Decode block
  -- Round 1
  let a := ff a b c d x[0] s11 0xd76aa478
  let d := ff d a b c x[1] s12 0xe8c7b756
  let c := ff c d a b x[2] s13 0x242070db
  let b := ff b c d a x[3] s14 0xc1bdceee
  let a := ff a b c d x[4] s11 0xf57c0faf
  let d := ff d a b c x[5] s12 0x4787c62a
  let c := ff c d a b x[6] s13 0xa8304613
  let b := ff b c d a x[7] s14 0xfd469501
  let a := ff a b c d x[8] s11 0x698098d8
  let d := ff d a b c x[9] s12 0x8b44f7af
  let c := ff c d a b x[10] s13 0xffff5bb1
  let b := ff b c d a x[11] s14 0x895cd7be
  let a := ff a b c d x[12] s11 0x6b901122
  let d := ff d a b c x[13] s12 0xfd987193
  let c := ff c d a b x[14] s13 0xa679438e
  let b := ff b c d a x[15] s14 0x49b40821
  -- Round 2
  let a := gg a b c d x[1] s21 0xf61e2562
  let d := gg d a b c x[6] s22 0xc040b340
  let c := gg c d a b x[11] s23 0x265e5a51
  let b := gg b c d a x[0] s24 0xe9b6c7aa
  let a := gg a b c d x[5] s21 0xd62f105d
  let d := gg d a b c x[10] s22 0x2441453
  let c := gg c d a b x[15] s23 0xd8a1e681
  let b := gg b c d a x[4] s24 0xe7d3fbc8
  let a := gg a b c d x[9] s21 0x21e1cde6
  let d := gg d a b c x[14] s22 0xc33707d6
  let c := gg c d a b x[3] s23 0xf4d50d87
  let b := gg b c d a x[8] s24 0x455a14ed
  let a := gg a b c d x[13] s21 0xa9e3e905
  let d := gg d a b c x[2] s22 0xfcefa3f8
  let c := gg c d a b x[7] s23 0x676f02d9
  let b := gg b c d a x[12] s24 0x8d2a4c8a
  -- Round 3
  let a := hh a b c d x[5] s31 0xfffa3942
  let d := hh d a b c x[8] s32 0x8771f681
  let c := hh c d a b x[11] s33 0x6d9d6122
  let b := hh b c d a x[14] s34 0xfde5380c
  let a := hh a b c d x[1] s31 0xa4beea44
  let d := hh d a b c x[4] s32 0x4bdecfa9
  let c := hh c d a b x[7] s33 0xf6bb4b60
  let b := hh b c d a x[10] s34 0xbebfbc70
  let a := hh a b c d x[13] s31 0x289b7ec6
  let d := hh d a b c x[0] s32 0xeaa127fa
  let c := hh c d a b x[3] s33 0xd4ef3085
  let b := hh b c d a x[6] s34 0x4881d05
  let a := hh a b c d x[9] s31 0xd9d4d039
  let d := hh d a b c x[12] s32 0xe6db99e5
  let c := hh c d a b x[15] s33 0x1fa27cf8
  let b := hh b c d a x[2] s34 0xc4ac5665
  -- Round 4
  let a := ii a b c d x[0] s41 0xf4292244
  let d := ii d a b c x[7] s42 0x432aff97
  let c := ii c d a b x[14] s43 0xab9423a7
  let b := ii b c d a x[5] s44 0xfc93a039
  let a := ii a b c d x[12] s41 0x655b59c3
  let d := ii d a b c x[3] s42 0x8f0ccc92
  let c := ii c d a b x[10] s43 0xffeff47d
  let b := ii b c d a x[1] s44 0x85845dd1
  let a := ii a b c d x[8] s41 0x6fa87e4f
  let d := ii d a b c x[15] s42 0xfe2ce6e0
  let c := ii c d a b x[6] s43 0xa3014314
  let b := ii b c d a x[13] s44 0x4e0811a1
  let a := ii a b c d x[4] s41 0xf7537e82
  let d := ii d a b c x[11] s42 0xbd3af235
  let c := ii c d a b x[2] s43 0x2ad7d2bb
  let b := ii b c d a x[9] s44 0xeb86d391
  #v[state[0] + a, state[1] + b, state[2] + c, state[3] + d]

/-! ## Contexts -/

/-- The constants of `md5_init`. -/
def initialState : Vector Word 4 := #v[0x67452301, 0xefcdab89, 0x98badcfe, 0x10325476]

/-- `md5_init`: the buffer stays as it is. -/
def md5Init (ctx : Ctx) : Ctx := { ctx with state := initialState, count := #v[0, 0] }

/-- A block is not empty. -/
local instance neZero_64 : NeZero 64 := ⟨by decide⟩

/-- `PADDING`. -/
def padding : Vector UInt8 64 := Vector.ofFn fun i => if i = 0 then 0x80 else 0

/-- The loop of `md5_update`, from `i` on; behind the end of the input nothing can be read. -/
def transformLoop (input : List UInt8) (state : Vector Word 4) (i : ℕ) :
    Option (Vector Word 4 × ℕ) :=
  if (i + 63) % 2 ^ 32 < input.length then
    if h : 64 ≤ (input.drop i).length then
      transformLoop input (md5Transform state (block 64 (input.drop i) h)) (i + 64)
    else none
  else some (state, i)
termination_by input.length - i
decreasing_by
  rw [List.length_drop] at h
  omega

/-- The bytes that wait in the buffer, by the number of bits. -/
def Ctx.index (ctx : Ctx) : ℕ := ((ctx.count[0] >>> 3) &&& 0x3f).toNat

/-- The number of bits with so many bytes more. -/
def Ctx.counted (ctx : Ctx) (inputLen : Word) : Vector Word 2 :=
  let low := ctx.count[0] + inputLen <<< 3
  let high := if low < inputLen <<< 3 then ctx.count[1] + 1 else ctx.count[1]
  #v[low, high + inputLen >>> 29]

/-- `md5_update`. -/
def md5Update (ctx : Ctx) (input : List UInt8) : Option Ctx :=
  let count := ctx.counted (BitVec.ofNat 32 input.length)
  let partLen := 64 - ctx.index
  if partLen ≤ input.length then
    let buffer := splice ctx.buffer ctx.index (input.take partLen)
    (transformLoop input (md5Transform ctx.state buffer) partLen).map fun r =>
      { state := r.1, count, buffer := splice buffer 0 (input.drop r.2) }
  else some { ctx with count, buffer := splice ctx.buffer ctx.index input }

/-- The context after `md5_final`. -/
def Ctx.zero : Ctx := ⟨.replicate 4 0, .replicate 2 0, .replicate 64 0⟩

/-- `md5_final`. -/
def md5Final (ctx : Ctx) : Option (Digest × Ctx) := do
  let bits := md5Encode ctx.count
  let padLen := if ctx.index < 56 then 56 - ctx.index else 120 - ctx.index
  let ctx ← md5Update ctx (padding.toList.take padLen)
  let ctx ← md5Update ctx bits.toList
  some (md5Encode ctx.state, .zero)

/-! ## The digest of a message -/

/-- The number of bits of a message in eight bytes, the lowest first. -/
def lengthBytes (bits : ℕ) : List UInt8 := (List.range 8).map fun i => UInt8.ofNat (bits / 256 ^ i)

/-- A message with a bit that is set behind it, as many zeros as make the length of it all a
multiple of 64, and its own length. -/
def padded (m : List UInt8) : List UInt8 :=
  m ++ 0x80 :: List.replicate ((119 - m.length % 64) % 64) 0 ++ lengthBytes (8 * m.length)

/-- The digest of a whole message. -/
def md5 (m : List UInt8) : Digest := md5Encode (absorb md5Transform initialState (padded m)).1

example : md5 [] = #v[0xd4, 0x1d, 0x8c, 0xd9, 0x8f, 0x00, 0xb2, 0x04, 0xe9, 0x80, 0x09, 0x98,
    0xec, 0xf8, 0x42, 0x7e] := by
  decide +kernel

/-! ## Counting -/

/-- The number of bits in the two words. -/
def Ctx.bits (ctx : Ctx) : ℕ := ctx.count[1].toNat * 2 ^ 32 + ctx.count[0].toNat

variable {ctx : Ctx} {m input : List UInt8} {k : ℕ}

lemma counted_low (ctx : Ctx) (inputLen : Word) :
    (ctx.counted inputLen)[0] = ctx.count[0] + inputLen <<< 3 := rfl

lemma counted_high (ctx : Ctx) (inputLen : Word) : (ctx.counted inputLen)[1] =
    (if ctx.count[0] + inputLen <<< 3 < inputLen <<< 3 then ctx.count[1] + 1 else ctx.count[1]) +
      inputLen >>> 29 := rfl

lemma bits_counted (ctx : Ctx) (inputLen : Word) :
    (ctx.counted inputLen)[1].toNat * 2 ^ 32 + (ctx.counted inputLen)[0].toNat =
      (ctx.bits + 8 * inputLen.toNat) % 2 ^ 64 := by
  have hlow := ctx.count[0].isLt
  have hhigh := ctx.count[1].isLt
  have hlen := inputLen.isLt
  have hshift : (inputLen <<< 3).toNat = 8 * inputLen.toNat % 2 ^ 32 := by
    rw [BitVec.toNat_shiftLeft, Nat.shiftLeft_eq]
    omega
  have hrest : (inputLen >>> 29).toNat = inputLen.toNat / 2 ^ 29 := by
    rw [BitVec.toNat_ushiftRight, Nat.shiftRight_eq_div_pow]
  rw [counted_low, counted_high, Ctx.bits, BitVec.toNat_add, BitVec.toNat_add, hrest]
  split
  · rename_i hcarry
    rw [BitVec.lt_def, BitVec.toNat_add, hshift] at hcarry
    rw [hshift, BitVec.toNat_add, show (1 : Word).toNat = 1 from rfl]
    omega
  · rename_i hcarry
    rw [BitVec.lt_def, BitVec.toNat_add, hshift] at hcarry
    rw [hshift]
    omega

lemma index_eq (h : ctx.bits = 8 * k % 2 ^ 64) : ctx.index = k % 64 := by
  have hlow := ctx.count[0].isLt
  have hcount : ctx.count[0].toNat = 8 * k % 2 ^ 32 := by
    rw [Ctx.bits] at h
    omega
  show (BitVec.toNat (_ &&& _)) = _
  rw [BitVec.toNat_and, BitVec.toNat_ushiftRight, Nat.shiftRight_eq_div_pow, hcount,
    show (0x3f : Word).toNat = 2 ^ 6 - 1 from rfl, Nat.and_two_pow_sub_one_eq_mod]
  omega

/-! ## What a context holds -/

/-- The context has taken the message `m`. -/
structure Ctx.Holds (ctx : Ctx) (m : List UInt8) : Prop where
  absorbed : absorb md5Transform initialState m =
    (ctx.state, ctx.buffer.toList.take (m.length % 64))
  counted : ctx.bits = 8 * m.length % 2 ^ 64

lemma md5Init_holds (ctx : Ctx) : (md5Init ctx).Holds [] where
  absorbed := by
    rw [absorb_of_lt (by decide)]
    simp [md5Init]
  counted := by simp [md5Init, Ctx.bits]

/-- The loop takes the whole blocks that are left. -/
lemma transformLoop_eq {i : ℕ} (state : Vector Word 4) (hlen : input.length + 63 < 2 ^ 32)
    (hi : i ≤ input.length) :
    ∃ j, transformLoop input state i =
        some ((absorb md5Transform state (input.drop i)).1, j) ∧
      input.drop j = (absorb md5Transform state (input.drop i)).2 := by
  fun_induction transformLoop input state i with
  | case1 state i hlt h ih =>
    rw [absorb_of_le h, List.drop_drop]
    rw [List.length_drop] at h
    exact ih (by omega)
  | case2 state i hlt h =>
    rw [List.length_drop] at h
    omega
  | case3 state i hlt =>
    have hshort : (input.drop i).length < 64 := by
      rw [List.length_drop]
      omega
    rw [absorb_of_lt hshort]
    exact ⟨i, rfl, rfl⟩

/-- `md5_update` takes the next part of the message. -/
lemma Ctx.Holds.update (hctx : ctx.Holds m) (input : List UInt8)
    (hlen : input.length + 63 < 2 ^ 32) :
    ∃ ctx', md5Update ctx input = some ctx' ∧ ctx'.Holds (m ++ input) := by
  have hindex : ctx.index = m.length % 64 := index_eq hctx.counted
  have hbits := bits_counted ctx (BitVec.ofNat 32 input.length)
  rw [BitVec.toNat_ofNat, Nat.mod_eq_of_lt (a := input.length) (by omega), hctx.counted] at hbits
  have hcount : ((8 * m.length % 2 ^ 64) + 8 * input.length) % 2 ^ 64 =
      8 * (m ++ input).length % 2 ^ 64 := by
    rw [List.length_append]
    omega
  have hrest : (ctx.buffer.toList.take (m.length % 64)).length = m.length % 64 := by
    rw [List.length_take, Vector.length_toList]
    omega
  have happend := absorb_append md5Transform initialState m input
  rw [hctx.absorbed] at happend
  rw [md5Update, hindex]
  by_cases hfull : 64 - m.length % 64 ≤ input.length
  · have hsplice : ctx.buffer.toList.take (ctx.buffer.toList.take (m.length % 64)).length =
        ctx.buffer.toList.take (m.length % 64) := by rw [hrest]
    rw [absorb_splice hsplice (by omega) (by omega), hrest] at happend
    obtain ⟨j, hloop, hdrop⟩ := transformLoop_eq (md5Transform ctx.state
      (splice ctx.buffer (m.length % 64) (input.take (64 - m.length % 64)))) hlen hfull
    rw [if_pos hfull]
    dsimp only
    rw [hloop]
    refine ⟨_, rfl, ?_, hbits.trans hcount⟩
    have hlength := length_absorb md5Transform initialState (m ++ input)
    rw [happend, ← hdrop] at hlength
    rw [happend, ← hlength]
    apply Prod.ext
    · rfl
    · show _ = (splice _ 0 (input.drop j)).toList.take (input.drop j).length
      have hfits : 0 + (input.drop j).length ≤ 64 := by omega
      have htake := toList_splice (splice ctx.buffer (m.length % 64)
        (input.take (64 - m.length % 64))) hfits
      rw [Nat.zero_add, List.take_zero, List.nil_append] at htake
      rw [htake, ← hdrop]
  · rw [if_neg hfull]
    refine ⟨_, rfl, ?_, hbits.trans hcount⟩
    have hmod : (m ++ input).length % 64 = m.length % 64 + input.length := by
      rw [List.length_append]
      omega
    have hshort : (ctx.buffer.toList.take (m.length % 64) ++ input).length < 64 := by
      rw [List.length_append, hrest]
      omega
    rw [happend, absorb_of_lt hshort, hmod]
    show _ = (ctx.state, (splice _ _ _).toList.take _)
    rw [toList_splice _ (by omega)]

/-! ## The padding -/

lemma byte_congr {a b : ℕ} (h : a % 256 = b % 256) : UInt8.ofNat a = UInt8.ofNat b := by
  apply UInt8.toNat_inj.1
  rw [UInt8.toNat_ofNat', UInt8.toNat_ofNat']
  exact h

/-- One byte of a word. -/
lemma byte_eq (w : Word) (i : ℕ) :
    UInt8.ofNat ((w >>> (8 * i)) &&& 0xff).toNat = UInt8.ofNat (w.toNat / 256 ^ i) := by
  apply byte_congr
  rw [BitVec.toNat_and, BitVec.toNat_ushiftRight, Nat.shiftRight_eq_div_pow,
    show (0xff : Word).toNat = 2 ^ 8 - 1 from rfl, Nat.and_two_pow_sub_one_eq_mod, Nat.pow_mul,
    Nat.mod_mod]

lemma toList_wordBytes (w : Word) :
    (wordBytes w).toList = (List.range 4).map fun i => UInt8.ofNat (w.toNat / 256 ^ i) := by
  show [UInt8.ofNat ((w >>> (8 * 0)) &&& 0xff).toNat, UInt8.ofNat ((w >>> (8 * 1)) &&& 0xff).toNat,
    UInt8.ofNat ((w >>> (8 * 2)) &&& 0xff).toNat, UInt8.ofNat ((w >>> (8 * 3)) &&& 0xff).toNat] = _
  rw [byte_eq, byte_eq, byte_eq, byte_eq]
  rfl

lemma toList_md5Encode {n : ℕ} (v : Vector Word n) :
    (md5Encode v).toList = v.toList.flatMap fun w => (wordBytes w).toList := by
  show (v.toArray.flatMap fun w => (wordBytes w).toArray).toList = _
  rw [Array.toList_flatMap]
  rfl

/-- The bytes of the two words of a counter. -/
lemma toList_md5Encode_count (v : Vector Word 2) :
    (md5Encode v).toList = lengthBytes (v[1].toNat * 2 ^ 32 + v[0].toNat) := by
  have hv : v.toList = [v[0], v[1]] := by
    apply List.ext_getElem
    · rw [Vector.length_toList]
      rfl
    · intro i hi hi'
      rw [Vector.length_toList] at hi
      interval_cases i <;> rfl
  have hlow := v[0].isLt
  rw [toList_md5Encode, hv, List.flatMap_cons, List.flatMap_singleton, toList_wordBytes,
    toList_wordBytes, lengthBytes, show 8 = 4 + 4 from rfl, List.range_add, List.map_append,
    List.map_map]
  refine congrArg₂ (· ++ ·) ?_ ?_
  · apply List.map_congr_left
    intro i hi
    have hlt : i < 4 := List.mem_range.1 hi
    apply byte_congr
    interval_cases i <;> omega
  · apply List.map_congr_left
    intro i hi
    have hlt : i < 4 := List.mem_range.1 hi
    show _ = UInt8.ofNat (_ / 256 ^ (4 + i))
    apply byte_congr
    interval_cases i <;> omega

/-- Only the number of bits modulo `2 ^ 64` counts. -/
lemma lengthBytes_mod (bits : ℕ) : lengthBytes (bits % 2 ^ 64) = lengthBytes bits := by
  apply List.map_congr_left
  intro i hi
  have hlt : i < 8 := List.mem_range.1 hi
  apply byte_congr
  interval_cases i <;> omega

lemma take_padding (hk : k < 64) :
    padding.toList.take (k + 1) = 0x80 :: List.replicate k 0 := by
  have hpadding : padding.toList = 0x80 :: List.replicate 63 0 := by decide
  rw [hpadding, List.take_succ_cons, List.take_replicate, Nat.min_eq_left (by omega)]

/-- `md5_final` gives the digest of the message that was taken. -/
lemma Ctx.Holds.final (hctx : ctx.Holds m) : md5Final ctx = some (md5 m, .zero) := by
  have hindex : ctx.index = m.length % 64 := index_eq hctx.counted
  have hbits : (md5Encode ctx.count).toList = lengthBytes (8 * m.length) := by
    rw [toList_md5Encode_count, ← lengthBytes_mod]
    rw [show _ * _ + _ = ctx.bits from rfl, hctx.counted, Nat.mod_mod, lengthBytes_mod]
  have hpad : padding.toList.take
      (if ctx.index < 56 then 56 - ctx.index else 120 - ctx.index) =
        0x80 :: List.replicate ((119 - m.length % 64) % 64) 0 := by
    rw [← take_padding (by omega), hindex]
    congr 1
    split <;> omega
  have hzeros : (0x80 :: List.replicate ((119 - m.length % 64) % 64) 0 :
      List UInt8).length ≤ 64 := by
    rw [List.length_cons, List.length_replicate]
    omega
  have height : (lengthBytes (8 * m.length)).length = 8 := by
    rw [lengthBytes, List.length_map, List.length_range]
  obtain ⟨ctx₁, hpadded, hctx₁⟩ := hctx.update
    (0x80 :: List.replicate ((119 - m.length % 64) % 64) 0) (by omega)
  obtain ⟨ctx₂, hlengthened, hctx₂⟩ := hctx₁.update
    (lengthBytes (8 * m.length)) (by omega)
  rw [md5Final, hbits, hpad, hpadded, Option.bind_eq_bind, Option.bind_some, hlengthened]
  rw [md5, padded, hctx₂.absorbed]
  rfl

/-- A message may come in any parts: the digest is that of the whole message. -/
theorem md5Final_update (ctx : Ctx) (parts : List (List UInt8))
    (hlen : ∀ p ∈ parts, p.length + 63 < 2 ^ 32) :
    (parts.foldlM md5Update (md5Init ctx)).bind md5Final = some (md5 parts.flatten, .zero) := by
  have hholds (pre post : List (List UInt8)) (h : parts = pre ++ post) :
      ∃ ctx', pre.foldlM md5Update (md5Init ctx) = some ctx' ∧ ctx'.Holds pre.flatten := by
    induction pre using List.reverseRecOn generalizing post with
    | nil => exact ⟨_, rfl, md5Init_holds ctx⟩
    | append_singleton pre p ih =>
      rw [List.append_assoc] at h
      obtain ⟨ctx₁, hrun, hctx₁⟩ := ih _ h
      have hp : p ∈ parts := by
        rw [h]
        simp
      obtain ⟨ctx₂, hupdate, hctx₂⟩ := hctx₁.update p (hlen p hp)
      rw [Transition.foldlM_concat, hrun, Option.bind_some, List.flatten_concat]
      exact ⟨ctx₂, hupdate, hctx₂⟩
  obtain ⟨ctx', hrun, hctx'⟩ := hholds parts [] (List.append_nil _).symm
  rw [hrun, Option.bind_some, hctx'.final]

/-- The second part fills the buffer of 64 bytes and goes on in the next block. -/
theorem md5Final_update_two_parts :
    ([List.replicate 60 0x61, List.replicate 70 0x62].foldlM md5Update (md5Init .zero)).bind
        md5Final =
      some (md5 [List.replicate 60 0x61, List.replicate 70 0x62].flatten, .zero) :=
  md5Final_update .zero [List.replicate 60 0x61, List.replicate 70 0x62] (by simp)

end WebTester.Md5
