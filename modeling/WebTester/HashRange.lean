import WebTester.AssArrChains
import Mathlib.Data.Int.ModEq

/-!
# The range of the hash

Up to a multiple of the number of buckets the hash of a key is a number in base 43, but the
remainder of C keeps the sign of what is divided. A negative character can make the hash
negative, and it stays so until a later character makes it zero or carries it over zero.
Which characters do so is told by the remainders of the numbers that the beginnings of the
key stand for.
-/
namespace WebTester.Assarr
open CString

variable {key p : CStr} {c : Char}

/-- What a key stands for in base 43. -/
def numeral (key : CStr) : ℤ := key.foldl (fun n c => n * multiplier + schar c) 0

/-- The remainder that is not negative. -/
def residue (key : CStr) : ℤ := numeral key % buckets

/-- A character that makes a sum negative that was not. -/
def Falls (p : CStr) (c : Char) : Prop := residue p * multiplier + schar c < 0

/-- A character that ends at zero, or makes a negative sum one that is not. -/
def Recovers (p : CStr) (c : Char) : Prop :=
  residue (p ++ [c]) = 0 ∨ 0 ≤ (residue p - buckets) * multiplier + schar c

/-- After a character that makes the sum negative there is one that ends that. -/
def Recovered (key : CStr) : Prop :=
  ∀ p c, p ++ [c] <+: key → Falls p c →
    ∃ q d, q ++ [d] <+: key ∧ p.length < q.length ∧ Recovers q d

instance : Decidable (Falls p c) := inferInstanceAs (Decidable (_ < _))

/-! ## Remainders -/

lemma schar_bounds (c : Char) : -128 ≤ schar c ∧ schar c < 128 := by
  have hle := Int.le_bmod (x := c.toNat) (m := 256) (by decide)
  have hlt := Int.bmod_lt (x := c.toNat) (m := 256) (by decide)
  unfold schar
  omega

lemma residue_bounds (key : CStr) : 0 ≤ residue key ∧ residue key < 10987 :=
  ⟨Int.emod_nonneg _ (by decide), Int.emod_lt_of_pos _ (by decide)⟩

/-- The remainder of C is the other one, less the number of buckets for a negative number
that is not divided. -/
lemma tmod_buckets (x : ℤ) :
    x.tmod buckets = if x < 0 ∧ x % buckets ≠ 0 then x % buckets - buckets else x % buckets := by
  rw [Int.tmod_eq_emod]
  simp only [Int.dvd_iff_emod_eq_zero]
  split_ifs <;> omega

lemma buckets_cast : (buckets : ℤ) = 10987 := rfl

lemma assarrHash_concat (p : CStr) (c : Char) :
    assarrHash (p ++ [c]) = (assarrHash p * multiplier + schar c).tmod buckets :=
  List.foldl_concat _ _ _ _

lemma numeral_concat (p : CStr) (c : Char) :
    numeral (p ++ [c]) = numeral p * multiplier + schar c :=
  List.foldl_concat _ _ _ _

/-- Equal remainders are equal after one more character. -/
lemma emod_concat {x : ℤ} (hx : x % buckets = residue p) (c : Char) :
    (x * multiplier + schar c) % buckets = residue (p ++ [c]) := by
  have hmod : x ≡ numeral p [ZMOD buckets] := hx
  rw [residue, numeral_concat]
  exact (hmod.mul_right multiplier).add_right (schar c)

lemma assarrHash_emod (key : CStr) : assarrHash key % buckets = residue key := by
  induction key using List.reverseRecOn with
  | nil => rfl
  | append_singleton p c ih =>
    rw [assarrHash_concat, tmod_buckets, ← emod_concat ih c]
    split <;> simp

/-- The hash is one of the two numbers with the remainder of the key. -/
lemma assarrHash_cases (key : CStr) :
    0 ≤ assarrHash key ∧ assarrHash key = residue key ∨
      assarrHash key < 0 ∧ assarrHash key = residue key - buckets := by
  have hlt := assarrHash_lt key
  have hgt : -(buckets : ℤ) < assarrHash key := by
    rcases List.eq_nil_or_concat' key with rfl | ⟨cs, c, rfl⟩
    · show -(10987 : ℤ) < 0
      omega
    · rw [assarrHash_concat]
      exact Int.lt_tmod_of_pos _ (by decide)
  have hmod := assarrHash_emod key
  rw [buckets_cast] at *
  omega

/-- The sign of the hash after one more character. -/
lemma assarrHash_concat_nonneg (p : CStr) (c : Char) :
    0 ≤ assarrHash (p ++ [c]) ↔ Recovers p c ∨ ¬Falls p c ∧ 0 ≤ assarrHash p := by
  have hp := residue_bounds p
  have hnext := residue_bounds (p ++ [c])
  have hc := schar_bounds c
  have hconcat := emod_concat (assarrHash_emod p) c
  have hcases := assarrHash_cases p
  have hk : multiplier = 43 := rfl
  rw [assarrHash_concat, tmod_buckets, hconcat]
  unfold Recovers Falls
  rw [buckets_cast, hk] at *
  split <;> omega

/-! ## Keys -/

/-- A sum that a character makes negative is too near to zero to end there. -/
lemma Recovers.not_falls (h : Recovers p c) : ¬Falls p c := by
  have hp := residue_bounds p
  have hc := schar_bounds c
  have hk : multiplier = 43 := rfl
  have hmod : residue p % buckets = residue p := Int.emod_emod_of_dvd _ dvd_rfl
  have hconcat := emod_concat hmod c
  unfold Recovers at h
  unfold Falls
  rw [buckets_cast, hk] at h hconcat
  rw [hk]
  omega

lemma recovered_concat : Recovered (p ++ [c]) ↔ Recovers p c ∨ ¬Falls p c ∧ Recovered p := by
  constructor
  · intro h
    by_cases hrec : Recovers p c
    · exact .inl hrec
    -- what comes after a fall stands before the last character
    have hlater : ∀ q d, q ++ [d] <+: p ++ [c] → Falls q d →
        ∃ r e, r ++ [e] <+: p ∧ q.length < r.length ∧ Recovers r e := by
      intro q d hq hfall
      obtain ⟨r, e, hr, hlt, hre⟩ := h q d hq hfall
      rcases List.prefix_concat_iff.1 hr with heq | hr
      · obtain ⟨rfl, hlast⟩ := List.append_inj' heq rfl
        cases hlast
        exact absurd hre hrec
      · exact ⟨r, e, hr, hlt, hre⟩
    refine .inr ⟨fun hfall => ?_, fun q d hq => hlater q d (hq.trans (List.prefix_append _ _))⟩
    obtain ⟨r, e, hr, hlt, -⟩ := hlater p c List.prefix_rfl hfall
    have hle := hr.length_le
    rw [List.length_append] at hle
    omega
  · intro h q d hq hfall
    rcases List.prefix_concat_iff.1 hq with heq | hq
    · obtain ⟨rfl, hlast⟩ := List.append_inj' heq rfl
      cases hlast
      rcases h with hrec | ⟨hnot, -⟩
      · exact absurd hfall hrec.not_falls
      · exact absurd hfall hnot
    · rcases h with hrec | ⟨-, h⟩
      · have hle := hq.length_le
        rw [List.length_append, List.length_singleton] at hle
        exact ⟨p, c, List.prefix_rfl, hle, hrec⟩
      · obtain ⟨r, e, hr, hlt, hre⟩ := h q d hq hfall
        exact ⟨r, e, hr.trans (List.prefix_append _ _), hlt, hre⟩

lemma assarrHash_nonneg_iff (key : CStr) : 0 ≤ assarrHash key ↔ Recovered key := by
  induction key using List.reverseRecOn with
  | nil =>
    refine iff_of_true le_rfl fun p c h => ?_
    simp at h
  | append_singleton p c ih => rw [assarrHash_concat_nonneg, recovered_concat, ih]

/-- Characters that are not negative keep the hash in the table. -/
theorem recovered_of_nonneg (h : ∀ c ∈ key, 0 ≤ schar c) : Recovered key := by
  intro p c hp hfall
  have hc := h c (hp.subset (List.mem_append_right p List.mem_cons_self))
  have hpos := residue_bounds p
  have hk : multiplier = 43 := rfl
  unfold Falls at hfall
  rw [hk] at hfall
  omega

/-- The bucket that `assarr_define`, `assarr_get_entry` and `assarr_unset_value` use for a key. -/
def HashInTable (key : CStr) : Prop :=
  0 ≤ assarrHash key ∧ assarrHash key < buckets ∧
    ∀ (β : Type) (t : Table β), (t.bucket (assarrHash key)).isSome

/-- The hash is that of a bucket if and only if every character that makes the sum negative
is followed by one that ends that. -/
theorem hashInTable_iff (key : CStr) : HashInTable key ↔ Recovered key := by
  rw [← assarrHash_nonneg_iff]
  constructor
  · intro h
    exact h.1
  · intro h
    refine ⟨h, assarrHash_lt key, fun β t => ?_⟩
    rw [Table.bucket, if_pos ⟨h, assarrHash_lt key⟩]
    rfl

/-- The key of the byte 0x80 has the hash -128. -/
theorem not_hashInTable_high : assarrHash [Char.ofNat 128] = -128 ∧
    ¬HashInTable [Char.ofNat 128] := by
  have heq : assarrHash [Char.ofNat 128] = -128 := by decide
  refine ⟨heq, fun h => ?_⟩
  have hpos := h.1
  omega

end WebTester.Assarr
