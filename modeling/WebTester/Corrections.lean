import WebTester.Process

/-!
# Corrected resource usage

The configuration may correct the memory and the time that the kernel reports. The
corrections are signed and the reported values are not, so the words wrap around where
an exact result is negative. `correctedTime` is the exact one, cut off at zero.
-/
namespace WebTester.Librun
open CString Bits

/-- A value of `long`. -/
def IsLong (x : ℤ) : Prop := -2 ^ 63 ≤ x ∧ x < 2 ^ 63

namespace Process

variable {cfg : Profile} {p p₁ p₂ : Process} {st st₁ st₂ : Stats}

/-! ## Time -/

/-- The time to be reported, over the integers. -/
def correctedTime (cfg : Profile) (p : Process) (st : Stats) : ℤ :=
  max 0 (st.timeUsage.toNat - p.baseTime.toNat + cfg.timeCorrection)

/-- The corrected time is reported, and a process that exceeds its limit is marked. -/
structure TimeReported (cfg : Profile) (p : Process) (st : Stats) : Prop where
  usage : ((p.fillFromStats cfg st).usageTime.toNat : ℤ) = p.correctedTime cfg st
  limit : 0 < p.timeLimit → (p.timeLimit.toNat : ℤ) < p.correctedTime cfg st →
    ∀ s, test ((p.fillFromStats cfg st).checkLimits cfg s) psTimelimit = true

lemma test_timelimit_of_overTime (h : p.overTime cfg = true) (s : State) :
    test (p.checkLimits cfg s) psTimelimit = true := by
  have hflag : test psTimelimit psTimelimit = true := by decide
  simp [checkLimits, h, hflag]

/-- A time that is reported as it should be is compared as it should be. -/
lemma timeReported_of_usage
    (h : ((p.fillFromStats cfg st).usageTime.toNat : ℤ) = p.correctedTime cfg st) :
    TimeReported cfg p st where
  usage := h
  limit := by
    intro hpos hlt s
    apply test_timelimit_of_overTime
    have hover : p.timeLimit < (p.fillFromStats cfg st).usageTime := by
      rw [BitVec.lt_def]
      omega
    have hlimit : (p.fillFromStats cfg st).timeLimit = p.timeLimit := rfl
    unfold overTime
    rw [hlimit, decide_eq_true hpos, decide_eq_true hover]
    rfl

/-- The words that are compared and subtracted, as numbers: the threshold wraps around when the
correction is greater than the base or their distance is no word. -/
lemma usageTime_toNat :
    ((p.fillFromStats cfg st).usageTime.toNat : ℤ) =
      if (p.baseTime.toNat - cfg.timeCorrection) % 2 ^ 64 ≤ (st.timeUsage.toNat : ℤ) then
        (st.timeUsage.toNat - p.baseTime.toNat + cfg.timeCorrection) % 2 ^ 64
      else 0 := by
  have ht := st.timeUsage.isLt
  have hb := p.baseTime.isLt
  have hthreshold : ((p.baseTime - BitVec.ofInt 64 cfg.timeCorrection).toNat : ℤ) =
      (p.baseTime.toNat - cfg.timeCorrection) % 2 ^ 64 := by
    rw [BitVec.toNat_sub, BitVec.toNat_ofInt]
    omega
  have husage : ((st.timeUsage - p.baseTime + BitVec.ofInt 64 cfg.timeCorrection).toNat : ℤ) =
      (st.timeUsage.toNat - p.baseTime.toNat + cfg.timeCorrection) % 2 ^ 64 := by
    rw [BitVec.toNat_add, BitVec.toNat_sub, BitVec.toNat_ofInt]
    omega
  have hle : p.baseTime - BitVec.ofInt 64 cfg.timeCorrection ≤ st.timeUsage ↔
      (p.baseTime.toNat - cfg.timeCorrection) % 2 ^ 64 ≤ (st.timeUsage.toNat : ℤ) := by
    rw [BitVec.le_def]
    omega
  unfold fillFromStats
  dsimp only
  split_ifs with h₁ h₂ h₂
  · exact husage
  · exact absurd (hle.1 h₁) h₂
  · exact absurd (hle.2 h₂) h₁
  · rfl

/-- The time is reported as it should be exactly when the correction is not greater than the base,
and, where their distance is no word, the measured time stays behind the wrapped threshold. -/
theorem timeReported_iff (hc : IsLong cfg.timeCorrection)
    (hfits : p.correctedTime cfg st < 2 ^ 63) :
    TimeReported cfg p st ↔ cfg.timeCorrection ≤ p.baseTime.toNat ∧
      (p.baseTime.toNat - cfg.timeCorrection < 2 ^ 64 ∨
        (st.timeUsage.toNat : ℤ) ≤ p.baseTime.toNat - cfg.timeCorrection - 2 ^ 64) := by
  have ht := st.timeUsage.isLt
  have hb := p.baseTime.isLt
  have husage := @usageTime_toNat cfg p st
  unfold IsLong at hc
  unfold correctedTime at hfits
  constructor
  · intro h
    have hreported := h.usage
    rw [husage, correctedTime] at hreported
    split_ifs at hreported with hle
    · omega
    · omega
  · intro h
    apply timeReported_of_usage
    rw [husage, correctedTime]
    split_ifs with hle
    · omega
    · omega

/-- A correction of 1 s. -/
def laterProfile : Profile := ⟨0, 1000000, 2000000, 3000000, 0, 0⟩

/-- 12 s of a process with a base of 10 s are reported as 3 s. -/
theorem timeReported_iff_basis :
    TimeReported laterProfile { spawnNewProcess 1 [] 0 1000000 with baseTime := 10000000 }
      ⟨0, 0, 12000000, 0, 0⟩ :=
  have hlong : IsLong laterProfile.timeCorrection := by unfold IsLong; decide
  (timeReported_iff hlong (by decide)).2 (by decide)

/-- A correction of 1 s on a base of 0: 5 s are reported as 0, and the limit of 1 s is not
exceeded. -/
theorem time_reported_as_zero :
    let p := spawnNewProcess 1 [] 0 1000000
    let st : Stats := ⟨0, 0, 5000000, 0, 0⟩
    p.correctedTime laterProfile st = 6000000 ∧ (p.fillFromStats laterProfile st).usageTime = 0 ∧
      test ((p.fillFromStats laterProfile st).checkLimits laterProfile 0) psTimelimit = false := by
  decide

/-! ## Memory -/

/-- The condition under which the correction keeps the order of two peak values: both sums are
words or neither is, and a negative correction is made to both, to neither, or does not lead below
the value that was left uncorrected. -/
def OrderKept (c : ℤ) (m₁ m₂ : ℕ) : Prop :=
  0 ≤ c ∧ (m₂ + c < 2 ^ 64 ∨ 2 ^ 64 ≤ m₁ + c) ∨
    c < 0 ∧ (0 ≤ m₁ + c ∨ m₂ + c < 0 ∨ m₁ ≤ m₂ + c)

/-- Less memory is not reported as more, nor judged over a limit that more is not. -/
structure MemoryMonotone (cfg : Profile) (p₁ p₂ : Process) (st₁ st₂ : Stats) : Prop where
  usage : (p₁.fillFromStats cfg st₁).usageRss ≤ (p₂.fillFromStats cfg st₂).usageRss
  limit : (p₁.fillFromStats cfg st₁).overMemory cfg = true →
    (p₂.fillFromStats cfg st₂).overMemory cfg = true

lemma usageRss_toNat (hc : IsLong cfg.rssCorrection) :
    ((p.fillFromStats cfg st).usageRss.toNat : ℤ) =
      if st.hiwaterRss.toNat + cfg.rssCorrection < 0 then (st.hiwaterRss.toNat : ℤ)
      else (st.hiwaterRss.toNat + cfg.rssCorrection) % 2 ^ 64 := by
  unfold IsLong at hc
  have hm := st.hiwaterRss.isLt
  have hsum : ((st.hiwaterRss + BitVec.ofInt 64 cfg.rssCorrection).toNat : ℤ) =
      (st.hiwaterRss.toNat + cfg.rssCorrection) % 2 ^ 64 := by
    rw [BitVec.toNat_add, BitVec.toNat_ofInt]
    omega
  have hlt : cfg.rssCorrection < 0 → (st.hiwaterRss < -BitVec.ofInt 64 cfg.rssCorrection ↔
      st.hiwaterRss.toNat + cfg.rssCorrection < 0) := by
    intro hneg
    rw [BitVec.lt_def, BitVec.toNat_neg, BitVec.toNat_ofInt]
    omega
  unfold fillFromStats
  dsimp only
  split_ifs with h₁ h₂ h₂
  · rfl
  · exact absurd ((hlt h₁.1).1 h₁.2) h₂
  · have hneg : cfg.rssCorrection < 0 := by omega
    exact absurd ⟨hneg, (hlt hneg).2 h₂⟩ h₁
  · exact hsum

/-- Of two processes with one limit, the one that is over it by less memory would be over it by
more. -/
lemma overMemory_mono (hlimit : p₁.rssLimit = p₂.rssLimit) (hle : p₁.usageRss ≤ p₂.usageRss)
    (h : p₁.overMemory cfg = true) : p₂.overMemory cfg = true := by
  unfold overMemory at h ⊢
  rw [hlimit] at h
  simp only [Bool.or_eq_true, Bool.and_eq_true, decide_eq_true_eq, BitVec.lt_def] at h ⊢
  rw [BitVec.le_def] at hle
  obtain ⟨hpos, hlt⟩ | ⟨hpos, hlt⟩ := h
  · exact .inl ⟨hpos, hlt.trans_le hle⟩
  · exact .inr ⟨hpos, hlt.trans_le hle⟩

/-- Exactly such pairs of peak values keep their order. -/
theorem memoryMonotone_iff (hc : IsLong cfg.rssCorrection) (hlimit : p₁.rssLimit = p₂.rssLimit)
    (hle : st₁.hiwaterRss ≤ st₂.hiwaterRss) :
    MemoryMonotone cfg p₁ p₂ st₁ st₂ ↔
      OrderKept cfg.rssCorrection st₁.hiwaterRss.toNat st₂.hiwaterRss.toNat := by
  have h₁ := @usageRss_toNat cfg p₁ st₁ hc
  have h₂ := @usageRss_toNat cfg p₂ st₂ hc
  have hm := st₂.hiwaterRss.isLt
  rw [BitVec.le_def] at hle
  unfold IsLong at hc
  have husage : (p₁.fillFromStats cfg st₁).usageRss ≤ (p₂.fillFromStats cfg st₂).usageRss ↔
      OrderKept cfg.rssCorrection st₁.hiwaterRss.toNat st₂.hiwaterRss.toNat := by
    unfold OrderKept
    rw [BitVec.le_def]
    split_ifs at h₁ h₂ <;> omega
  constructor
  · intro h
    exact husage.1 h.usage
  · intro h
    exact ⟨husage.2 h, overMemory_mono hlimit (husage.2 h)⟩

/-- A correction of -1000 kB. -/
def sampleProfile : Profile := ⟨-1000, 0, 2000000, 3000000, 0, 0⟩

theorem memoryMonotone_iff_below :
    MemoryMonotone sampleProfile (spawnNewProcess 1 [] 500 0) (spawnNewProcess 2 [] 500 0)
      ⟨900, 0, 0, 0, 0⟩ ⟨990, 0, 0, 0, 0⟩ := by
  have hlong : IsLong sampleProfile.rssCorrection := by
    unfold IsLong
    decide
  have hle : (⟨900, 0, 0, 0, 0⟩ : Stats).hiwaterRss ≤ (⟨990, 0, 0, 0, 0⟩ : Stats).hiwaterRss := by
    decide
  have hlimit : (spawnNewProcess 1 [] 500 0).rssLimit = (spawnNewProcess 2 [] 500 0).rssLimit := rfl
  refine (memoryMonotone_iff hlong hlimit hle).2 ?_
  unfold OrderKept
  decide

/-- 900 kB are left as they are and exceed a limit of 500 kB, 1000 kB are reported as 0. -/
theorem memory_not_monotone :
    let p := spawnNewProcess 1 [] 500 0
    let q := p.fillFromStats sampleProfile ⟨900, 0, 0, 0, 0⟩
    let r := p.fillFromStats sampleProfile ⟨1000, 0, 0, 0, 0⟩
    q.usageRss = 900 ∧ r.usageRss = 0 ∧ q.overMemory sampleProfile = true ∧
      r.overMemory sampleProfile = false := by
  decide

end Process

end WebTester.Librun
