import WebTester.Accumulator

/-!
# The test for elapsed time

`CHECK_TIME_DELTA` on machine words. The fields of a `struct timeval` are signed; `tv_usec_cmp`
compares them as unsigned words with the parts of a number of microseconds. On times that are
normalised the words behave as the natural numbers with which the server and libRUN are modelled.
-/
namespace WebTester.TimeDelta

/-- `struct timeval`. -/
structure Timeval where
  sec : BitVec 64
  usec : BitVec 64
  deriving DecidableEq, Repr

/-- `timedist`: the comparisons are signed. -/
def timedist (start stop : Timeval) : Timeval :=
  if stop.sec.slt start.sec ∨ start.sec = stop.sec ∧ stop.usec.slt start.usec then ⟨0, 0⟩
  else if start.usec.sle stop.usec then ⟨stop.sec - start.sec, stop.usec - start.usec⟩
  else ⟨stop.sec - start.sec - 1, stop.usec + 1000000 - start.usec⟩

/-- `tv_usec_cmp`: the comparisons are unsigned. -/
def tvUsecCmp (tv : Timeval) (usec : BitVec 64) : ℤ :=
  if usec / 1000000 < tv.sec then 1
  else if tv.sec < usec / 1000000 then -1
  else if usec % 1000000 < tv.usec then 1
  else if tv.usec < usec % 1000000 then -1
  else 0

/-- `CHECK_TIME_DELTA`. -/
def checkTimeDelta (self timestamp : Timeval) (delta : BitVec 64) : Bool :=
  decide (0 < tvUsecCmp (timedist self timestamp) delta)

namespace Timeval

/-- What `gettimeofday` gives. -/
structure Normal (t : Timeval) : Prop where
  sec_nonneg : 0 ≤ t.sec.toInt
  usec_nonneg : 0 ≤ t.usec.toInt
  usec_lt : t.usec.toInt < 1000000

/-- Microseconds since the start of the count. -/
def usecs (t : Timeval) : ℤ := t.sec.toInt * 1000000 + t.usec.toInt

/-- The words of a time as numbers without a sign. -/
def toTimeVal (t : Timeval) : Librun.TimeVal := ⟨t.sec.toNat, t.usec.toNat⟩

variable {t : Timeval}

lemma toInt_eq_toNat {x : BitVec 64} (h : 0 ≤ x.toInt) : x.toInt = x.toNat := by
  rw [BitVec.toInt_eq_toNat_cond] at h ⊢
  split at h
  · exact if_pos ‹_›
  · have hlt := x.isLt
    omega

lemma slt_iff {x y : BitVec 64} (hx : 0 ≤ x.toInt) (hy : 0 ≤ y.toInt) :
    x.slt y = true ↔ x.toNat < y.toNat := by
  rw [BitVec.slt_iff_toInt_lt, toInt_eq_toNat hx, toInt_eq_toNat hy, Int.ofNat_lt]

lemma sle_iff {x y : BitVec 64} (hx : 0 ≤ x.toInt) (hy : 0 ≤ y.toInt) :
    x.sle y = true ↔ x.toNat ≤ y.toNat := by
  rw [BitVec.sle_iff_toInt_le, toInt_eq_toNat hx, toInt_eq_toNat hy, Int.ofNat_le]

lemma Normal.sec_eq (h : t.Normal) : t.sec.toInt = t.sec.toNat := toInt_eq_toNat h.sec_nonneg

lemma Normal.usec_eq (h : t.Normal) : t.usec.toInt = t.usec.toNat := toInt_eq_toNat h.usec_nonneg

lemma Normal.toNat_usec_lt (h : t.Normal) : t.usec.toNat < 1000000 := by
  have hlt := h.usec_lt
  rw [h.usec_eq] at hlt
  omega

/-- A normalised time as the server keeps it. -/
def Normal.moment (h : t.Normal) : Scheduler.Moment := ⟨t.toTimeVal, h.toNat_usec_lt⟩

lemma Normal.usecs_eq (h : t.Normal) : t.usecs = h.moment.usecs := by
  rw [usecs, h.sec_eq, h.usec_eq, Scheduler.Moment.usecs, Int.natCast_add, Int.natCast_mul]
  rfl

end Timeval

/-! ## The words and the numbers -/

variable {a b : Timeval}

/-- Between normalised times nothing overflows. -/
lemma toTimeVal_timedist (ha : a.Normal) (hb : b.Normal) :
    (timedist a b).toTimeVal = Librun.timedist a.toTimeVal b.toTimeVal := by
  have hausec := ha.toNat_usec_lt
  have hbusec := hb.toNat_usec_lt
  have hborrow := Timeval.sle_iff ha.usec_nonneg hb.usec_nonneg
  have hwrong : (b.sec.slt a.sec = true ∨ a.sec = b.sec ∧ b.usec.slt a.usec = true) ↔
      (b.sec.toNat < a.sec.toNat ∨
        a.sec.toNat = b.sec.toNat ∧ b.usec.toNat < a.usec.toNat) := by
    rw [Timeval.slt_iff hb.sec_nonneg ha.sec_nonneg, Timeval.slt_iff hb.usec_nonneg ha.usec_nonneg,
      BitVec.toNat_inj]
  by_cases horder : b.sec.toNat < a.sec.toNat ∨
      a.sec.toNat = b.sec.toNat ∧ b.usec.toNat < a.usec.toNat
  · rw [timedist, Librun.timedist, if_pos (hwrong.2 horder)]
    exact (if_pos horder).symm
  · rw [timedist, Librun.timedist, if_neg (mt hwrong.1 horder)]
    refine Eq.trans ?_ (if_neg horder).symm
    have hsub : (b.sec - a.sec).toNat = b.sec.toNat - a.sec.toNat :=
      BitVec.toNat_sub_of_le (by rw [BitVec.le_def]; omega)
    by_cases hle : a.usec.toNat ≤ b.usec.toNat
    · rw [if_pos (hborrow.2 hle)]
      refine Eq.trans ?_ (if_pos hle).symm
      show (⟨(b.sec - a.sec).toNat, (b.usec - a.usec).toNat⟩ : Librun.TimeVal) = _
      rw [hsub, BitVec.toNat_sub_of_le (BitVec.le_def.2 hle)]
      rfl
    · -- a second is borrowed
      rw [if_neg (mt hborrow.1 hle)]
      refine Eq.trans ?_ (if_neg hle).symm
      have hone : (1 : BitVec 64) ≤ b.sec - a.sec := by
        rw [BitVec.le_def, hsub]
        show 1 ≤ _
        omega
      have hadd : (b.usec + 1000000).toNat = b.usec.toNat + 1000000 :=
        BitVec.toNat_add_of_lt (by show b.usec.toNat + 1000000 < 2 ^ 64; omega)
      have husub : (b.usec + 1000000 - a.usec).toNat = b.usec.toNat + 1000000 - a.usec.toNat := by
        rw [BitVec.toNat_sub_of_le (by rw [BitVec.le_def]; omega), hadd]
      show (⟨(b.sec - a.sec - 1).toNat, (b.usec + 1000000 - a.usec).toNat⟩ : Librun.TimeVal) = _
      rw [BitVec.toNat_sub_of_le hone, hsub, husub]
      rfl

/-- The result is that of the comparison of two numbers, whatever the words are. -/
lemma tvUsecCmp_pos_iff (tv : Timeval) (usec : BitVec 64) :
    0 < tvUsecCmp tv usec ↔ Librun.tvUsecCmp tv.toTimeVal usec.toNat = .gt := by
  have hmillion : (1000000 : BitVec 64).toNat = 1000000 := rfl
  rw [Librun.tvUsecCmp, Ordering.then_eq_gt, Nat.compare_eq_gt, Nat.compare_eq_eq,
    Nat.compare_eq_gt]
  unfold tvUsecCmp Timeval.toTimeVal
  simp only [BitVec.lt_def, BitVec.toNat_udiv, BitVec.toNat_umod, hmillion]
  split_ifs <;> omega

/-- The test on words is the test on numbers. -/
lemma checkTimeDelta_eq (ha : a.Normal) (hb : b.Normal) (delta : BitVec 64) :
    checkTimeDelta a b delta = ha.moment.checkTimeDelta hb.moment delta.toNat := by
  rw [Bool.eq_iff_iff, checkTimeDelta, decide_eq_true_eq, tvUsecCmp_pos_iff,
    toTimeVal_timedist ha hb, Scheduler.Moment.checkTimeDelta, beq_iff_eq]
  rfl

/-- More than the given number of microseconds lie between the times. -/
lemma checkTimeDelta_usecs (ha : a.Normal) (hb : b.Normal) (delta : BitVec 64) :
    checkTimeDelta a b delta = true ↔ (delta.toNat : ℤ) < b.usecs - a.usecs := by
  rw [checkTimeDelta_eq ha hb, Scheduler.Moment.checkTimeDelta_iff, ha.usecs_eq, hb.usecs_eq]
  omega

/-- The test is exact; it never holds backwards, and holds for every later time if it holds. -/
theorem checkTimeDelta_exact (ha : a.Normal) (hb : b.Normal) (delta : BitVec 64) :
    (checkTimeDelta a b delta = true ↔ (delta.toNat : ℤ) < b.usecs - a.usecs) ∧
      (b.usecs < a.usecs → checkTimeDelta a b delta = false) ∧
      ∀ c : Timeval, c.Normal → b.usecs ≤ c.usecs → checkTimeDelta a b delta = true →
        checkTimeDelta a c delta = true := by
  have hiff := checkTimeDelta_usecs ha hb delta
  refine ⟨hiff, ?_, ?_⟩
  · intro hbefore
    rw [← Bool.not_eq_true, hiff]
    omega
  · intro c hc hle hcheck
    rw [checkTimeDelta_usecs ha hc]
    have hlt := hiff.1 hcheck
    omega

/-- 1.2 seconds, over the turn of a second. -/
theorem checkTimeDelta_borrow : checkTimeDelta ⟨10, 900000⟩ ⟨12, 100000⟩ 1199999 = true :=
  (checkTimeDelta_exact ⟨by decide, by decide, by decide⟩ ⟨by decide, by decide, by decide⟩
    1199999).1.2 (by decide)

example : checkTimeDelta ⟨10, 900000⟩ ⟨12, 100000⟩ 1200000 = false := by decide

end WebTester.TimeDelta
