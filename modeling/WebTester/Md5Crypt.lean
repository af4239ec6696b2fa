import Mathlib.Data.Nat.Digits.Defs
import WebTester.CString
import WebTester.Md5

/-!
# Hashes of passwords

`md5_crypt` mixes a password and a salt, takes the digest a thousand times again, and writes the
salt, `y` and the digest in 22 characters. The program that encrypts passwords for IPC and the
command `login` leave out the first 8 characters.
-/
namespace WebTester.Md5
open BlockStream CString

/-- A string as `unsigned char *`. -/
def bytes (s : CStr) : List UInt8 := s.map fun c => UInt8.ofNat c.toNat

/-- `MD5_MAGIC`. -/
def md5Magic : CStr := "assword".toList

/-- `MD5_MAGIC_LEN`. -/
def md5MagicLen : ℕ := 7

/-- `itoa64`. -/
def itoa64 : Vector Char 64 :=
  ⟨"@#0123456789ABCDEFGHIJKLMNOPQRSTUVWXYZabcdefghijklmnopqrstuvwxyz".toList.toArray, by decide⟩

lemma and_lt (v : Word) : (v &&& 0x3f).toNat < 64 := by
  rw [BitVec.toNat_and]
  exact Nat.lt_succ_of_le Nat.and_le_right

/-- `md5_to64`. -/
def md5To64 (v : Word) : ℕ → CStr
  | 0 => []
  | n + 1 => itoa64.get ⟨(v &&& 0x3f).toNat, and_lt v⟩ :: md5To64 (v >>> 6) n

/-- `md5_strlcpy`: the string in the destination, which has `siz` places and one at least. -/
def md5Strlcpy (src : CStr) (siz : ℕ) : CStr := src.take (siz - 1)

/-- Where the salt begins behind the magic string, if it is there. -/
def skipMagic (salt : CStr) : CStr :=
  if salt.take md5MagicLen = md5Magic then salt.drop md5MagicLen else salt

/-- The length of the true salt: up to `$`, and 8 characters at most. -/
def saltLen (sp : CStr) : ℕ := ((sp.take 8).takeWhile (· ≠ '$')).length

/-- `for (pl = pwl; pl > 0; pl -= 16)`. -/
def addDigest (final : Digest) (ctx : Ctx) (pl : ℤ) : Option Ctx :=
  if 0 < pl then do
    let ctx ← md5Update ctx (final.toList.take (if 16 < pl then 16 else pl.toNat))
    addDigest final ctx (pl - 16)
  else some ctx
termination_by pl.toNat

/-- `for (i = pwl; i != 0; i >>= 1)`. -/
def addBits (final : Digest) (pw : List UInt8) (ctx : Ctx) (i : ℕ) : Option Ctx :=
  if i = 0 then some ctx
  else do
    let ctx ← md5Update ctx (if i % 2 ≠ 0 then final.toList.take 1 else pw.take 1)
    addBits final pw ctx (i / 2)
termination_by i

/-- `if (c) md5_update (ctx, input)`. -/
def updateIf (c : Prop) [Decidable c] (ctx : Ctx) (input : List UInt8) : Option Ctx :=
  if c then md5Update ctx input else some ctx

/-- One of the thousand rounds, with `final` and `ctx1`. -/
def stretch (pw salt : List UInt8) (s : Digest × Ctx) (i : ℕ) : Option (Digest × Ctx) := do
  let ctx1 := md5Init s.2
  let ctx1 ← md5Update ctx1 (if i % 2 ≠ 0 then pw else s.1.toList)
  let ctx1 ← updateIf (i % 3 ≠ 0) ctx1 salt
  let ctx1 ← updateIf (i % 7 ≠ 0) ctx1 pw
  let ctx1 ← md5Update ctx1 (if i % 2 ≠ 0 then s.1.toList else pw)
  md5Final ctx1

/-- Three bytes in a word. -/
def group (a b c : UInt8) : Word :=
  BitVec.ofNat 32 a.toNat <<< 16 ||| BitVec.ofNat 32 b.toNat <<< 8 ||| BitVec.ofNat 32 c.toNat

/-- The digest as it is written behind `p`. -/
def writeDigest (final : Digest) : CStr :=
  md5To64 (group (final.get 0) (final.get 6) (final.get 12)) 4 ++
  md5To64 (group (final.get 1) (final.get 7) (final.get 13)) 4 ++
  md5To64 (group (final.get 2) (final.get 8) (final.get 14)) 4 ++
  md5To64 (group (final.get 3) (final.get 9) (final.get 15)) 4 ++
  md5To64 (group (final.get 4) (final.get 10) (final.get 5)) 4 ++
  md5To64 (BitVec.ofNat 32 (final.get 11).toNat) 2

/-- `md5_crypt`, with what is in `ctx` and `ctx1` before it. -/
def md5Crypt (ctx ctx1 : Ctx) (pw salt : CStr) : Option CStr := do
  let pwl := pw.length % 2 ^ 32
  let key := (bytes pw).take pwl
  let sp := skipMagic salt
  let sl := saltLen sp
  let ctx ← md5Update (md5Init ctx) key
  let ctx ← md5Update ctx (bytes md5Magic)
  let ctx ← md5Update ctx ((bytes sp).take sl)
  let ctx1 ← md5Update (md5Init ctx1) key
  let ctx1 ← md5Update ctx1 ((bytes sp).take sl)
  let ctx1 ← md5Update ctx1 key
  let (final, ctx1) ← md5Final ctx1
  let ctx ← addDigest final ctx (toInt pwl)
  let ctx ← addBits (.replicate 16 0) (bytes pw) ctx pwl
  let passwd := md5Magic ++ md5Strlcpy sp (sl + 1) ++ "y".toList
  let (final, _) ← md5Final ctx
  let (final, _) ← (List.range 1000).foldlM (stretch key ((bytes sp).take sl)) (final, ctx1)
  let passwd := passwd.take (sl + md5MagicLen + 1) ++ writeDigest final
  some (passwd.drop md5MagicLen)

/-! ## What is to be computed -/

/-- The salt that counts. -/
def trueSalt (salt : CStr) : CStr := ((skipMagic salt).take 8).takeWhile (· ≠ '$')

/-- So many bytes of a digest that is repeated. -/
def cycle (d : Digest) (k : ℕ) : List UInt8 :=
  (List.range k).map fun i => d.get ⟨i % 16, Nat.mod_lt _ (by decide)⟩

/-- A byte for each bit of a number, the lowest first: nothing where it is set, the first of the
password where it is not. -/
def bitBytes (pw : List UInt8) (k : ℕ) : List UInt8 :=
  (Nat.digits 2 k).flatMap fun b => if b = 1 then [0] else pw.take 1

/-- The message whose digest the rounds begin with. -/
def firstMessage (pw salt : List UInt8) : List UInt8 :=
  pw ++ bytes md5Magic ++ salt ++ cycle (md5 (pw ++ salt ++ pw)) pw.length ++ bitBytes pw pw.length

/-- The message of a round. -/
def roundMessage (pw salt : List UInt8) (d : Digest) (i : ℕ) : List UInt8 :=
  (if i % 2 ≠ 0 then pw else d.toList) ++ (if i % 3 ≠ 0 then salt else []) ++
    (if i % 7 ≠ 0 then pw else []) ++ (if i % 2 ≠ 0 then d.toList else pw)

/-- The digest of a password with a salt, by messages alone. -/
def cryptDigest (pw salt : List UInt8) : Digest :=
  (List.range 1000).foldl (fun d i => md5 (roundMessage pw salt d i)) (md5 (firstMessage pw salt))

/-! ## The loops -/

variable {ctx : Ctx} {m pw salt : List UInt8} {d : Digest}

lemma length_digest (d : Digest) : d.toList.length = 16 := Vector.length_toList

lemma length_bytes (s : CStr) : (bytes s).length = s.length := List.length_map _

lemma cycle_of_le {k : ℕ} (h : k ≤ 16) : cycle d k = d.toList.take k := by
  apply List.ext_getElem
  · simp [cycle, h]
  · intro i hi hi'
    have hlt : i < 16 := by
      rw [List.length_take, length_digest] at hi'
      omega
    simp only [cycle, List.getElem_map, List.getElem_range, List.getElem_take,
      Vector.getElem_toList, Nat.mod_eq_of_lt hlt]
    rfl

lemma cycle_add (d : Digest) (k : ℕ) : cycle d (16 + k) = d.toList ++ cycle d k := by
  have hfirst : cycle d 16 = d.toList := by
    rw [cycle_of_le le_rfl, List.take_of_length_le (length_digest d).le]
  rw [← hfirst, cycle, List.range_add, List.map_append, List.map_map]
  congr 1
  apply List.map_congr_left
  intro i _
  simp [Nat.add_mod_left]

lemma bitBytes_zero (pw : List UInt8) : bitBytes pw 0 = [] := by simp [bitBytes]

lemma bitBytes_of_ne {k : ℕ} (h : k ≠ 0) :
    bitBytes pw k = (if k % 2 ≠ 0 then [0] else pw.take 1) ++ bitBytes pw (k / 2) := by
  rw [bitBytes, Nat.digits_def' (by decide) (Nat.pos_of_ne_zero h), List.flatMap_cons, bitBytes]
  congr 1
  have hmod : k % 2 ≠ 0 ↔ k % 2 = 1 := by omega
  simp only [hmod]

lemma Ctx.Holds.addDigest (hctx : ctx.Holds m) (d : Digest) (k : ℕ) :
    ∃ ctx', addDigest d ctx k = some ctx' ∧ ctx'.Holds (m ++ cycle d k) := by
  induction k using Nat.strongRecOn generalizing ctx m with
  | ind k ih =>
    rw [Md5.addDigest]
    by_cases hzero : k = 0
    · rw [hzero, if_neg (by decide), cycle_of_le (by decide), List.take_zero, List.append_nil]
      exact ⟨ctx, rfl, hctx⟩
    · have hpart : (if (16 : ℤ) < k then 16 else (k : ℤ).toNat) = min 16 k := by
        split <;> omega
      obtain ⟨ctx₁, hupdate, hctx₁⟩ := hctx.update (d.toList.take (min 16 k)) (by
        rw [List.length_take]
        omega)
      rw [if_pos (by omega), hpart, hupdate, Option.bind_eq_bind, Option.bind_some]
      by_cases hmore : 16 ≤ k
      · obtain ⟨j, rfl⟩ := Nat.exists_eq_add_of_le hmore
        obtain ⟨ctx₂, hrest, hctx₂⟩ := ih j (by omega) hctx₁
        have hsub : ((16 + j : ℕ) : ℤ) - 16 = j := by omega
        rw [hsub, cycle_add]
        refine ⟨ctx₂, hrest, ?_⟩
        rwa [Nat.min_eq_left hmore, List.take_of_length_le (length_digest d).le,
          List.append_assoc] at hctx₂
      · rw [Md5.addDigest, if_neg (by omega), cycle_of_le (by omega)]
        rw [Nat.min_eq_right (by omega)] at hctx₁
        exact ⟨ctx₁, rfl, hctx₁⟩

lemma Ctx.Holds.addBits (hctx : ctx.Holds m) (pw : List UInt8) (k : ℕ) :
    ∃ ctx', addBits (.replicate 16 0) pw ctx k = some ctx' ∧
      ctx'.Holds (m ++ bitBytes pw k) := by
  induction k using Nat.strongRecOn generalizing ctx m with
  | ind k ih =>
    rw [Md5.addBits]
    by_cases hzero : k = 0
    · rw [if_pos hzero, hzero, bitBytes_zero, List.append_nil]
      exact ⟨ctx, rfl, hctx⟩
    · have hbyte : (Vector.replicate 16 (0 : UInt8)).toList.take 1 = [0] := rfl
      obtain ⟨ctx₁, hupdate, hctx₁⟩ := hctx.update
        (if k % 2 ≠ 0 then [0] else pw.take 1) (by
          split
          · decide
          · rw [List.length_take]
            omega)
      obtain ⟨ctx₂, hrest, hctx₂⟩ := ih (k / 2) (by omega) hctx₁
      rw [if_neg hzero, hbyte, hupdate, Option.bind_eq_bind, Option.bind_some, hrest,
        bitBytes_of_ne hzero, ← List.append_assoc]
      exact ⟨ctx₂, rfl, hctx₂⟩

/-- A part that may be left out. -/
lemma Ctx.Holds.updateIf (hctx : ctx.Holds m) (c : Prop) [Decidable c] (input : List UInt8)
    (hlen : input.length + 63 < 2 ^ 32) :
    ∃ ctx', updateIf c ctx input = some ctx' ∧ ctx'.Holds (m ++ if c then input else []) := by
  rw [Md5.updateIf]
  split
  · exact hctx.update input hlen
  · rw [List.append_nil]
    exact ⟨ctx, rfl, hctx⟩

lemma stretch_eq (s : Digest × Ctx) (i : ℕ) (hpw : pw.length + 63 < 2 ^ 32)
    (hsalt : salt.length + 63 < 2 ^ 32) :
    stretch pw salt s i = some (md5 (roundMessage pw salt s.1 i), .zero) := by
  have hdigest : s.1.toList.length + 63 < 2 ^ 32 := by
    rw [length_digest]
    decide
  obtain ⟨ctx₁, h₁, hctx₁⟩ := (md5Init_holds s.2).update (if i % 2 ≠ 0 then pw else s.1.toList)
    (by split <;> assumption)
  obtain ⟨ctx₂, h₂, hctx₂⟩ := hctx₁.updateIf (i % 3 ≠ 0) salt hsalt
  obtain ⟨ctx₃, h₃, hctx₃⟩ := hctx₂.updateIf (i % 7 ≠ 0) pw hpw
  obtain ⟨ctx₄, h₄, hctx₄⟩ := hctx₃.update (if i % 2 ≠ 0 then s.1.toList else pw)
    (by split <;> assumption)
  rw [stretch]
  simp only [h₁, h₂, h₃, h₄, Option.bind_eq_bind, Option.bind_some]
  rw [hctx₄.final, List.nil_append]
  rfl

lemma foldlM_stretch (hpw : pw.length + 63 < 2 ^ 32) (hsalt : salt.length + 63 < 2 ^ 32)
    (l : List ℕ) (s : Digest × Ctx) : ∃ ctx', l.foldlM (stretch pw salt) s =
      some (l.foldl (fun d i => md5 (roundMessage pw salt d i)) s.1, ctx') := by
  induction l generalizing s with
  | nil => exact ⟨s.2, rfl⟩
  | cons i l ih =>
    rw [List.foldlM_cons, stretch_eq s i hpw hsalt, Option.bind_eq_bind, Option.bind_some]
    exact ih _

/-! ## The whole function -/

lemma trueSalt_eq (salt : CStr) :
    trueSalt salt = (skipMagic salt).take (saltLen (skipMagic salt)) := by
  have hprefix : trueSalt salt <+: skipMagic salt :=
    (List.takeWhile_prefix _).trans (List.take_prefix _ _)
  exact List.prefix_iff_eq_take.1 hprefix

lemma length_trueSalt_le (salt : CStr) : (trueSalt salt).length ≤ 8 :=
  ((List.takeWhile_prefix _).length_le).trans (List.length_take_le _ _)

lemma take_bytes_saltLen (salt : CStr) :
    (bytes (skipMagic salt)).take (saltLen (skipMagic salt)) = bytes (trueSalt salt) := by
  rw [bytes, ← List.map_take, ← trueSalt_eq]
  rfl

lemma saltLen_eq (salt : CStr) : saltLen (skipMagic salt) = (trueSalt salt).length := rfl

/-- The string in `passwd`, before the digest and behind the magic string. -/
lemma drop_passwd (salt tail : CStr) :
    ((md5Magic ++ md5Strlcpy (skipMagic salt) (saltLen (skipMagic salt) + 1) ++ "y".toList).take
      (saltLen (skipMagic salt) + md5MagicLen + 1) ++ tail).drop md5MagicLen =
      trueSalt salt ++ 'y' :: tail := by
  have hcopy : md5Strlcpy (skipMagic salt) (saltLen (skipMagic salt) + 1) = trueSalt salt :=
    (trueSalt_eq salt).symm
  have hlength : (md5Magic ++ trueSalt salt ++ "y".toList).length =
      saltLen (skipMagic salt) + md5MagicLen + 1 := by
    rw [saltLen_eq, List.length_append, List.length_append,
      show md5Magic.length = md5MagicLen from rfl, show "y".toList.length = 1 from rfl]
    omega
  rw [hcopy, ← hlength, List.take_length, List.append_assoc, List.append_assoc,
    List.drop_left' (show md5Magic.length = md5MagicLen from rfl)]
  rfl

/-- `md5_crypt` writes the salt, `y` and the digest. -/
lemma md5Crypt_eq (ctx ctx1 : Ctx) {pw : CStr} (salt : CStr) (hpw : pw.length < 2 ^ 31) :
    md5Crypt ctx ctx1 pw salt = some (trueSalt salt ++ 'y' ::
      writeDigest (cryptDigest (bytes pw) (bytes (trueSalt salt)))) := by
  have hkey : (bytes pw).length + 63 < 2 ^ 32 := by
    rw [length_bytes]
    omega
  have hsalt : (bytes (trueSalt salt)).length + 63 < 2 ^ 32 := by
    have := length_trueSalt_le salt
    rw [length_bytes]
    omega
  have hmod : pw.length % 2 ^ 32 = pw.length := Nat.mod_eq_of_lt (by omega)
  have hint : toInt pw.length = pw.length := toInt_natCast hpw
  obtain ⟨c₁, h₁, hc₁⟩ := (md5Init_holds ctx).update _ hkey
  obtain ⟨c₂, h₂, hc₂⟩ := hc₁.update (bytes md5Magic) (by decide)
  obtain ⟨c₃, h₃, hc₃⟩ := hc₂.update _ hsalt
  obtain ⟨d₁, h₄, hd₁⟩ := (md5Init_holds ctx1).update _ hkey
  obtain ⟨d₂, h₅, hd₂⟩ := hd₁.update _ hsalt
  obtain ⟨d₃, h₆, hd₃⟩ := hd₂.update _ hkey
  obtain ⟨c₄, h₇, hc₄⟩ := hc₃.addDigest (md5 ([] ++ bytes pw ++ bytes (trueSalt salt) ++ bytes pw))
    pw.length
  obtain ⟨c₅, h₈, hc₅⟩ := hc₄.addBits (bytes pw) pw.length
  obtain ⟨c₆, h₉⟩ := foldlM_stretch hkey hsalt (List.range 1000)
    (md5 (firstMessage (bytes pw) (bytes (trueSalt salt))), .zero)
  have htake : (bytes pw).take pw.length = bytes pw :=
    List.take_of_length_le (length_bytes pw).le
  rw [md5Crypt]
  simp only [hmod, hint, htake, take_bytes_saltLen, h₁, h₂, h₃, h₄, h₅, h₆, h₇, h₈,
    hd₃.final, Option.bind_eq_bind, Option.bind_some]
  have hmessage : [] ++ bytes pw ++ bytes md5Magic ++ bytes (trueSalt salt) ++
      cycle (md5 ([] ++ bytes pw ++ bytes (trueSalt salt) ++ bytes pw)) pw.length ++
        bitBytes (bytes pw) pw.length = firstMessage (bytes pw) (bytes (trueSalt salt)) := by
    rw [firstMessage, List.nil_append, length_bytes]
  rw [hc₅.final, Option.bind_some, hmessage, h₉, Option.bind_some, drop_passwd, cryptDigest]

/-! ## What is written can be read back -/

lemma length_md5To64 (v : Word) (n : ℕ) : (md5To64 v n).length = n := by
  induction n generalizing v with
  | zero => rfl
  | succ n ih => rw [md5To64, List.length_cons, ih]

lemma itoa64_inj : ∀ i j : Fin 64, itoa64.get i = itoa64.get j → i = j := by decide +kernel

lemma toNat_and_low (v : Word) : (v &&& 0x3f).toNat = v.toNat % 64 := by
  rw [BitVec.toNat_and, show (0x3f : Word).toNat = 2 ^ 6 - 1 from rfl,
    Nat.and_two_pow_sub_one_eq_mod]

/-- The characters tell the low bits of a word. -/
lemma md5To64_inj {v w : Word} {n : ℕ} (h : md5To64 v n = md5To64 w n) :
    v.toNat % 64 ^ n = w.toNat % 64 ^ n := by
  induction n generalizing v w with
  | zero => rw [Nat.pow_zero, Nat.mod_one, Nat.mod_one]
  | succ n ih =>
    obtain ⟨hchar, htail⟩ := List.cons.inj h
    have hlow := congrArg Fin.val (itoa64_inj _ _ hchar)
    dsimp only at hlow
    rw [toNat_and_low, toNat_and_low] at hlow
    have hhigh := ih htail
    rw [BitVec.toNat_ushiftRight, BitVec.toNat_ushiftRight, Nat.shiftRight_eq_div_pow,
      Nat.shiftRight_eq_div_pow] at hhigh
    rw [Nat.pow_succ', Nat.mod_mul, Nat.mod_mul, hlow, hhigh]

lemma toNat_group (a b c : UInt8) :
    (group a b c).toNat = (a.toNat * 256 + b.toNat) * 256 + c.toNat := by
  have ha := a.toNat_lt
  have hb := b.toNat_lt
  have hc := c.toNat_lt
  rw [group, BitVec.toNat_or, BitVec.toNat_or, BitVec.toNat_shiftLeft, BitVec.toNat_shiftLeft,
    BitVec.toNat_ofNat, BitVec.toNat_ofNat, BitVec.toNat_ofNat, Nat.shiftLeft_eq, Nat.shiftLeft_eq,
    Nat.mod_eq_of_lt (a := a.toNat) (by omega), Nat.mod_eq_of_lt (a := b.toNat) (by omega),
    Nat.mod_eq_of_lt (a := c.toNat) (by omega), Nat.mod_eq_of_lt (by omega),
    Nat.mod_eq_of_lt (by omega)]
  have hhigh : a.toNat * 2 ^ 16 ||| b.toNat * 2 ^ 8 = (a.toNat * 2 ^ 8 + b.toNat) * 2 ^ 8 := by
    have hor := Nat.two_pow_add_eq_or_of_lt (i := 16) (b := b.toNat * 2 ^ 8) (by omega) a.toNat
    rw [Nat.mul_comm a.toNat, ← hor]
    omega
  have hor := Nat.two_pow_add_eq_or_of_lt (i := 8) hc (a.toNat * 2 ^ 8 + b.toNat)
  rw [hhigh, Nat.mul_comm _ (2 ^ 8), ← hor]
  omega

lemma group_inj {a b c a' b' c' : UInt8}
    (h : md5To64 (group a b c) 4 = md5To64 (group a' b' c') 4) : a = a' ∧ b = b' ∧ c = c' := by
  have hvalue := md5To64_inj h
  rw [toNat_group, toNat_group] at hvalue
  have ha := a.toNat_lt
  have hb := b.toNat_lt
  have hc := c.toNat_lt
  have ha' := a'.toNat_lt
  have hb' := b'.toNat_lt
  have hc' := c'.toNat_lt
  refine ⟨UInt8.toNat_inj.1 ?_, UInt8.toNat_inj.1 ?_, UInt8.toNat_inj.1 ?_⟩
  all_goals omega

lemma length_writeDigest (d : Digest) : (writeDigest d).length = 22 := by
  simp [writeDigest, length_md5To64]

/-- No part of the digest is lost. -/
lemma writeDigest_injective : Function.Injective writeDigest := by
  intro d e h
  have hsplit {a b c a' b' c' : UInt8} {s t : CStr}
      (h : s ++ md5To64 (group a b c) 4 = t ++ md5To64 (group a' b' c') 4) :
      s = t ∧ a = a' ∧ b = b' ∧ c = c' := by
    obtain ⟨hs, hgroup⟩ := List.append_inj' h (by rw [length_md5To64, length_md5To64])
    exact ⟨hs, group_inj hgroup⟩
  obtain ⟨h, hlast⟩ := List.append_inj' h (by rw [length_md5To64, length_md5To64])
  obtain ⟨h, h₄, h₁₀, h₅⟩ := hsplit h
  obtain ⟨h, h₃, h₉, h₁₅⟩ := hsplit h
  obtain ⟨h, h₂, h₈, h₁₄⟩ := hsplit h
  obtain ⟨h, h₁, h₇, h₁₃⟩ := hsplit h
  obtain ⟨h₀, h₆, h₁₂⟩ := group_inj h
  have h₁₁ : d.get 11 = e.get 11 := by
    have hvalue := md5To64_inj hlast
    have hd := (d.get 11).toNat_lt
    have he := (e.get 11).toNat_lt
    rw [BitVec.toNat_ofNat, BitVec.toNat_ofNat] at hvalue
    apply UInt8.toNat_inj.1
    omega
  apply Vector.ext
  intro i hi
  interval_cases i <;> assumption

/-- The result is made of the salt that counts and of the digest, whatever was in the contexts, and
two results are equal only where both are. -/
theorem md5Crypt_inj (ctx ctx1 ctx' ctx1' : Ctx) (pw pw' salt salt' : CStr)
    (hpw : pw.length < 2 ^ 31) (hpw' : pw'.length < 2 ^ 31) :
    ∃ out out', md5Crypt ctx ctx1 pw salt = some out ∧ md5Crypt ctx' ctx1' pw' salt' = some out' ∧
      out.take (out.length - 23) = trueSalt salt ∧
      out.drop (out.length - 23) =
        'y' :: writeDigest (cryptDigest (bytes pw) (bytes (trueSalt salt))) ∧
      (out = out' ↔ trueSalt salt = trueSalt salt' ∧
        cryptDigest (bytes pw) (bytes (trueSalt salt)) =
          cryptDigest (bytes pw') (bytes (trueSalt salt'))) := by
  have hlength (d : Digest) : ('y' :: writeDigest d).length = 23 := by
    rw [List.length_cons, length_writeDigest]
  refine ⟨_, _, md5Crypt_eq ctx ctx1 salt hpw, md5Crypt_eq ctx' ctx1' salt' hpw', ?_, ?_, ?_⟩
  · rw [List.length_append, hlength, Nat.add_sub_cancel]
    exact List.take_left
  · rw [List.length_append, hlength, Nat.add_sub_cancel]
    exact List.drop_left
  · constructor
    · intro h
      obtain ⟨hsalt, htail⟩ := List.append_inj' h (by rw [hlength, hlength])
      exact ⟨hsalt, writeDigest_injective (List.cons.inj htail).2⟩
    · rintro ⟨hsalt, hdigest⟩
      rw [hdigest, hsalt]

theorem md5Crypt_inj_password :
    ∃ out out', md5Crypt .zero .zero "secret".toList "#RANDOM#".toList = some out ∧
      md5Crypt .zero .zero "secret".toList "assword#RANDOM#".toList = some out' ∧
      out.take (out.length - 23) = trueSalt "#RANDOM#".toList ∧
      out.drop (out.length - 23) = 'y' :: writeDigest
        (cryptDigest (bytes "secret".toList) (bytes (trueSalt "#RANDOM#".toList))) ∧
      (out = out' ↔ trueSalt "#RANDOM#".toList = trueSalt "assword#RANDOM#".toList ∧
        cryptDigest (bytes "secret".toList) (bytes (trueSalt "#RANDOM#".toList)) =
          cryptDigest (bytes "secret".toList) (bytes (trueSalt "assword#RANDOM#".toList))) :=
  md5Crypt_inj _ _ _ _ _ _ _ _ (by decide) (by decide)

/-! ## Passwords of IPC -/

/-- `SALT` and `PASSWD_SALT`. -/
def passwdSalt : CStr := "#RANDOM#".toList

/-- What the program that encrypts passwords prints; the salt is an optional argument. -/
def ipcpassenc (ctx ctx1 : Ctx) (pw : CStr) (salt : Option CStr) : Option CStr :=
  (md5Crypt ctx ctx1 pw (salt.getD passwdSalt)).map (·.drop 8)

/-- The comparison in `ipc_login`: `pass` is the value of `password-hash`. -/
def passwordAccepted (ctx ctx1 : Ctx) (pass pw : CStr) : Option Bool :=
  (md5Crypt ctx ctx1 pw passwdSalt).map fun dummy => pass == dummy.drop 8

lemma trueSalt_passwdSalt : trueSalt passwdSalt = passwdSalt := by decide

/-- A hash that was printed lets in whoever knows a password with the same digest, if its salt has
the length of that of `login`; a hash with a shorter salt lets in nobody. -/
theorem passwordAccepted_ipcpassenc (ctx ctx1 ctx' ctx1' : Ctx) (pw pw' : CStr)
    (salt : Option CStr) (hpw : pw.length < 2 ^ 31) (hpw' : pw'.length < 2 ^ 31) :
    ∃ pass ok, ipcpassenc ctx ctx1 pw salt = some pass ∧
      passwordAccepted ctx' ctx1' pass pw' = some ok ∧
      (ok = true ↔ (trueSalt (salt.getD passwdSalt)).length = 8 ∧
        cryptDigest (bytes pw) (bytes (trueSalt (salt.getD passwdSalt))) =
          cryptDigest (bytes pw') (bytes passwdSalt)) := by
  have hprinted := md5Crypt_eq ctx ctx1 (salt.getD passwdSalt) hpw
  have hgiven := md5Crypt_eq ctx' ctx1' passwdSalt hpw'
  rw [trueSalt_passwdSalt] at hgiven
  rw [ipcpassenc, hprinted]
  refine ⟨_, _, rfl, by rw [passwordAccepted, hgiven]; rfl, ?_⟩
  have height : passwdSalt.length = 8 := rfl
  dsimp only
  rw [List.drop_left' height, beq_iff_eq]
  have hle := length_trueSalt_le (salt.getD passwdSalt)
  generalize trueSalt (salt.getD passwdSalt) = s at *
  constructor
  · intro h
    have hlength := congrArg List.length h
    rw [List.length_drop, List.length_append, List.length_cons, List.length_cons,
      length_writeDigest, length_writeDigest] at hlength
    have hs : s.length = 8 := by omega
    rw [List.drop_left' hs] at h
    exact ⟨hs, writeDigest_injective (List.cons.inj h).2⟩
  · rintro ⟨hs, hdigest⟩
    rw [List.drop_left' hs, hdigest]

theorem passwordAccepted_ipcpassenc_short :
    ∃ pass ok, ipcpassenc .zero .zero "secret".toList (some "ab$c".toList) = some pass ∧
      passwordAccepted .zero .zero pass "secret".toList = some ok ∧
      (ok = true ↔ (trueSalt ((some "ab$c".toList).getD passwdSalt)).length = 8 ∧
        cryptDigest (bytes "secret".toList)
            (bytes (trueSalt ((some "ab$c".toList).getD passwdSalt))) =
          cryptDigest (bytes "secret".toList) (bytes passwdSalt)) :=
  passwordAccepted_ipcpassenc _ _ _ _ _ _ _ (by decide) (by decide)

end WebTester.Md5
