import Mathlib.Data.List.Infix
import Mathlib.Data.Nat.Find

/-!
# Substitution in lists

The occurrences of a pattern in a list are replaced from left to right, none of them overlapping
the one before.
-/
namespace WebTester.Substitution

variable {α : Type*} {pat v w s out out' : List α} {l k : ℕ}

/-- The pattern stands first at a place. -/
def FirstAt (pat s : List α) (l : ℕ) : Prop := pat <+: s.drop l ∧ ∀ j < l, ¬ pat <+: s.drop j

/-- What a list becomes when the occurrences of a pattern are replaced. -/
inductive Substituted (pat v : List α) : List α → List α → Prop
  | absent {s : List α} (h : ¬ pat <:+: s) : Substituted pat v s s
  | found {s out : List α} {l : ℕ} (h : FirstAt pat s l)
      (hrest : Substituted pat v (s.drop (l + pat.length)) out) :
      Substituted pat v s (s.take l ++ v ++ out)

/-! ## The first occurrence -/

lemma infix_iff_exists_drop : pat <:+: s ↔ ∃ l, pat <+: s.drop l := by
  constructor
  · rintro ⟨a, b, rfl⟩
    exact ⟨a.length, b, by rw [List.append_assoc, List.drop_left]⟩
  · rintro ⟨l, h⟩
    exact h.isInfix.trans (List.drop_suffix l s).isInfix

lemma exists_firstAt (h : pat <:+: s) : ∃ l, FirstAt pat s l := by
  classical
  have hex := infix_iff_exists_drop.1 h
  exact ⟨Nat.find hex, Nat.find_spec hex, fun j hj => Nat.find_min hex hj⟩

namespace FirstAt

lemma isInfix (h : FirstAt pat s l) : pat <:+: s := infix_iff_exists_drop.2 ⟨l, h.1⟩

lemma unique (hl : FirstAt pat s l) (hk : FirstAt pat s k) : l = k := by
  rcases lt_trichotomy l k with h | h | h
  · exact absurd hl.1 (hk.2 l h)
  · exact h
  · exact absurd hk.1 (hl.2 k h)

lemma append_drop (h : FirstAt pat s l) : pat ++ s.drop (l + pat.length) = s.drop l := by
  obtain ⟨b, hb⟩ := h.1
  rw [← List.drop_drop, ← hb, List.drop_left]

/-- A list before, at and behind the first occurrence. -/
lemma eq (h : FirstAt pat s l) : s.take l ++ pat ++ s.drop (l + pat.length) = s := by
  rw [List.append_assoc, h.append_drop, List.take_append_drop]

lemma add_length_le (hpat : pat ≠ []) (h : FirstAt pat s l) : l + pat.length ≤ s.length := by
  have hle := h.1.length_le
  have hpos := List.length_pos_iff.2 hpat
  rw [List.length_drop] at hle
  omega

end FirstAt

/-! ## The result -/

/-- There is always a result. -/
lemma exists_substituted (hpat : pat ≠ []) (v s : List α) : ∃ out, Substituted pat v s out := by
  induction hn : s.length using Nat.strong_induction_on generalizing s with
  | _ n ih =>
    subst hn
    by_cases h : pat <:+: s
    · obtain ⟨l, hl⟩ := exists_firstAt h
      have hle := hl.add_length_le hpat
      have hpos := List.length_pos_iff.2 hpat
      obtain ⟨out, hout⟩ := ih _ (by rw [List.length_drop]; omega) (s.drop (l + pat.length)) rfl
      exact ⟨_, .found hl hout⟩
    · exact ⟨s, .absent h⟩

namespace Substituted

lemma eq_of_absent (h : ¬ pat <:+: s) (hout : Substituted pat v s out) : out = s := by
  cases hout with
  | absent => rfl
  | found hl => exact absurd hl.isInfix h

/-- What a result is where the pattern occurs. -/
lemma exists_of_firstAt (h : FirstAt pat s l) (hout : Substituted pat v s out) :
    ∃ r, out = s.take l ++ v ++ r ∧ Substituted pat v (s.drop (l + pat.length)) r := by
  cases hout with
  | absent hnot => exact absurd h.isInfix hnot
  | found hk hrest =>
    obtain rfl := h.unique hk
    exact ⟨_, rfl, hrest⟩

/-- The pattern replaced by itself changes nothing. -/
lemma self (hpat : pat ≠ []) (s : List α) : Substituted pat pat s s := by
  obtain ⟨out, hout⟩ := exists_substituted hpat pat s
  have hs : out = s := by
    induction hout with
    | absent => rfl
    | found hl hrest ih => rw [ih, hl.eq]
  rwa [hs] at hout

/-- The results for two values differ by the values, as often as there are occurrences. -/
lemma countP_add (h : Substituted pat v s out) (h' : Substituted pat w s out') :
    ∃ j, (pat <:+: s → 0 < j) ∧
      ∀ p : α → Bool, out.countP p + j * w.countP p = out'.countP p + j * v.countP p := by
  induction h generalizing out' with
  | absent hnot =>
    rw [h'.eq_of_absent hnot]
    exact ⟨0, fun h => absurd h hnot, fun p => by rw [Nat.zero_mul, Nat.zero_mul]⟩
  | found hl hrest ih =>
    obtain ⟨r, rfl, hr⟩ := h'.exists_of_firstAt hl
    obtain ⟨j, -, hj⟩ := ih hr
    refine ⟨j + 1, fun _ => Nat.succ_pos j, fun p => ?_⟩
    have hp := hj p
    simp only [List.countP_append, Nat.succ_mul]
    omega

/-- Where the pattern occurs, a result tells the value. -/
lemma injective (hpat : pat <:+: s) (h : Substituted pat v s out) (h' : Substituted pat w s out) :
    v = w := by
  obtain ⟨j, hj, hcount⟩ := h.countP_add h'
  have hlength : v.length = w.length := by
    have hp := hcount fun _ => true
    simp only [List.countP_true, Nat.add_left_cancel_iff] at hp
    exact (Nat.eq_of_mul_eq_mul_left (hj hpat) hp).symm
  obtain ⟨l, hl⟩ := exists_firstAt hpat
  obtain ⟨r, rfl, -⟩ := h.exists_of_firstAt hl
  obtain ⟨r', hr', -⟩ := h'.exists_of_firstAt hl
  rw [List.append_assoc, List.append_assoc, List.append_cancel_left_eq] at hr'
  exact (List.append_inj hr' hlength).1

end Substituted

end WebTester.Substitution
