import Mathlib.Data.List.Basic

/-!
# Lines of a stream

The terminated lines of a sequence, and its pieces between terminators. Both agree on
sequences that end at a terminator, and terminated lines may be read part by part.
-/
namespace WebTester.Lines

variable {α : Type*} [DecidableEq α] {nl : α} {xs ys : List α}

/-- The terminated lines of a rest, when `cur` has been read of the first one. -/
def linesFrom (nl : α) (cur : List α) : List α → List (List α)
  | [] => []
  | c :: cs => if c = nl then cur :: linesFrom nl [] cs else linesFrom nl (cur ++ [c]) cs

def lines (nl : α) (xs : List α) : List (List α) := linesFrom nl [] xs

/-- The pieces of a rest; one that is not terminated counts as well. -/
def piecesFrom (nl : α) (cur : List α) : List α → List (List α)
  | [] => if cur = [] then [] else [cur]
  | c :: cs => if c = nl then cur :: piecesFrom nl [] cs else piecesFrom nl (cur ++ [c]) cs

def pieces (nl : α) (xs : List α) : List (List α) := piecesFrom nl [] xs

/-- Empty, or ending at a terminator. -/
def Terminated (nl : α) (xs : List α) : Prop := xs.getLast?.getD nl = nl

instance (nl : α) (xs : List α) : Decidable (Terminated nl xs) :=
  inferInstanceAs (Decidable (_ = _))

omit [DecidableEq α] in
lemma terminated_iff : Terminated nl xs ↔ xs = [] ∨ ∃ ys, xs = ys ++ [nl] := by
  unfold Terminated
  rcases List.eq_nil_or_concat' xs with rfl | ⟨ys, c, rfl⟩
  · simp
  · rw [List.getLast?_concat, Option.getD_some]
    constructor
    · rintro rfl
      exact .inr ⟨ys, rfl⟩
    · rintro (h | ⟨zs, h⟩)
      · simp at h
      · exact List.singleton_inj.1 (List.append_inj' h rfl).2

lemma linesFrom_append (cur ys zs : List α) :
    linesFrom nl cur (ys ++ nl :: zs) = linesFrom nl cur (ys ++ [nl]) ++ linesFrom nl [] zs := by
  induction ys generalizing cur with
  | nil => simp [linesFrom]
  | cons c ys ih =>
    simp only [List.cons_append, linesFrom]
    split
    · rw [ih, List.cons_append]
    · exact ih _

/-- Lines may be read part by part when the parts are cut at a terminator. -/
theorem lines_append (h : Terminated nl xs) : lines nl (xs ++ ys) = lines nl xs ++ lines nl ys := by
  rcases terminated_iff.1 h with rfl | ⟨zs, rfl⟩
  · rfl
  · rw [List.append_assoc, List.singleton_append]
    exact linesFrom_append [] zs ys

lemma piecesFrom_eq (cur ys : List α) :
    piecesFrom nl cur (ys ++ [nl]) = linesFrom nl cur (ys ++ [nl]) := by
  induction ys generalizing cur with
  | nil => simp [piecesFrom, linesFrom]
  | cons c ys ih =>
    simp only [List.cons_append, piecesFrom, linesFrom]
    split
    · rw [ih]
    · exact ih _

lemma flatten_piecesFrom_sublist (nl : α) (cur ys : List α) :
    (piecesFrom nl cur ys).flatten.Sublist (cur ++ ys) := by
  induction ys generalizing cur with
  | nil =>
    unfold piecesFrom
    split <;> simp
  | cons c cs ih =>
    unfold piecesFrom
    split
    · rw [List.flatten_cons]
      exact (List.Sublist.refl cur).append ((ih []).trans (List.sublist_cons_self c cs))
    · simpa using ih (cur ++ [c])

/-- The pieces consist of what was read, without the terminators. -/
theorem flatten_pieces_sublist (nl : α) (xs : List α) : (pieces nl xs).flatten.Sublist xs :=
  flatten_piecesFrom_sublist nl [] xs

theorem pieces_eq_lines (h : Terminated nl xs) : pieces nl xs = lines nl xs := by
  rcases terminated_iff.1 h with rfl | ⟨ys, rfl⟩
  · simp [pieces, lines, piecesFrom, linesFrom]
  · exact piecesFrom_eq [] ys

theorem lines_of_not_mem (h : nl ∉ xs) : lines nl xs = [] := by
  suffices hfrom : ∀ cur, linesFrom nl cur xs = [] from hfrom []
  induction xs with
  | nil => exact fun _ => rfl
  | cons c xs ih =>
    intro cur
    rw [List.mem_cons, not_or] at h
    rw [linesFrom, if_neg (Ne.symm h.1)]
    exact ih h.2 _

omit [DecidableEq α] in
lemma terminated_append (hx : Terminated nl xs) (hy : Terminated nl ys) :
    Terminated nl (xs ++ ys) := by
  rcases terminated_iff.1 hy with rfl | ⟨zs, rfl⟩
  · simpa using hx
  · rw [terminated_iff]
    exact .inr ⟨xs ++ zs, by simp⟩

end WebTester.Lines
