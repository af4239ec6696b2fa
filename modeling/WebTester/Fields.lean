import Mathlib.Data.List.Basic
import Mathlib.Algebra.Order.Group.Nat

/-!
# Texts of lines

A sequence is read line by line. Blanks at the start of a line are skipped, a line end is
a blank as well, and the text of a line counts unless it is empty. `emitted` lists the texts
of the lines that have ended, `pending` is the text of the one that has not.

A reader may instead look at the parts of the sequence one by one and take one text of
each. The last section says exactly when it gets the same texts.
-/
namespace WebTester.Fields

variable {α : Type*} (nl blank : α → Bool)

/-- A text, unless it is empty. -/
def whole (cur : List α) : List (List α) := if cur = [] then [] else [cur]

/-- Reads an element of a line whose text so far is `cur`. -/
def push (cur : List α) (x : α) : List α := if cur = [] ∧ blank x then [] else cur ++ [x]

def emitted (cur : List α) : List α → List (List α)
  | [] => []
  | x :: s => if nl x then whole cur ++ emitted [] s else emitted (push blank cur x) s

def pending (cur : List α) : List α → List α
  | [] => cur
  | x :: s => if nl x then pending [] s else pending (push blank cur x) s

/-- Empty, or starting with a line end. -/
def AtEnd (s : List α) : Prop := ∀ x ∈ s.head?, nl x

instance (s : List α) : Decidable (AtEnd nl s) := inferInstanceAs (Decidable (∀ _ ∈ _, _))

variable {nl blank} {cur s t : List α}

@[simp] lemma whole_nil : whole ([] : List α) = [] := rfl

lemma whole_of_ne (h : cur ≠ []) : whole cur = [cur] := if_neg h

section Steps

variable {x : α}

lemma emitted_nl (h : nl x) : emitted nl blank cur (x :: s) = whole cur ++ emitted nl blank [] s :=
  if_pos h

lemma emitted_push (h : ¬nl x) :
    emitted nl blank cur (x :: s) = emitted nl blank (push blank cur x) s := if_neg h

lemma pending_nl (h : nl x) : pending nl blank cur (x :: s) = pending nl blank [] s := if_pos h

lemma pending_push (h : ¬nl x) :
    pending nl blank cur (x :: s) = pending nl blank (push blank cur x) s := if_neg h

end Steps

theorem emitted_append (cur s t : List α) : emitted nl blank cur (s ++ t) =
    emitted nl blank cur s ++ emitted nl blank (pending nl blank cur s) t := by
  induction s generalizing cur with
  | nil => rfl
  | cons x s ih =>
    rw [List.cons_append]
    by_cases hx : nl x
    · rw [emitted_nl hx, emitted_nl hx, pending_nl hx, ih, List.append_assoc]
    · rw [emitted_push hx, emitted_push hx, pending_push hx, ih]

theorem pending_append (cur s t : List α) : pending nl blank cur (s ++ t) =
    pending nl blank (pending nl blank cur s) t := by
  induction s generalizing cur with
  | nil => rfl
  | cons x s ih =>
    rw [List.cons_append]
    by_cases hx : nl x
    · rw [pending_nl hx, pending_nl hx, ih]
    · rw [pending_push hx, pending_push hx, ih]

/-! ## Kinds of parts -/

/-- Blanks at the start of a line. -/
lemma scan_blank (h : ∀ x ∈ s, blank x) :
    emitted nl blank [] s = [] ∧ pending nl blank [] s = [] := by
  induction s with
  | nil => exact ⟨rfl, rfl⟩
  | cons x s ih =>
    rw [List.forall_mem_cons] at h
    have hpush : push blank [] x = [] := if_pos ⟨rfl, h.1⟩
    by_cases hx : nl x
    · rw [emitted_nl hx, pending_nl hx]
      exact ih h.2
    · rw [emitted_push hx, pending_push hx, hpush]
      exact ih h.2

/-- A text within a line. -/
lemma scan_text (hs : ∀ x ∈ s, ¬nl x) (h : cur ≠ [] ∨ ∀ x ∈ s.head?, ¬blank x) :
    emitted nl blank cur s = [] ∧ pending nl blank cur s = cur ++ s := by
  induction s generalizing cur with
  | nil => exact ⟨rfl, (List.append_nil cur).symm⟩
  | cons x s ih =>
    rw [List.forall_mem_cons] at hs
    have hpush : push blank cur x = cur ++ [x] := by
      refine if_neg ?_
      rintro ⟨hc, hx⟩
      rcases h with h | h
      · exact h hc
      · exact h x (by simp) hx
    obtain ⟨he, hp⟩ := ih hs.2 (.inl (List.concat_ne_nil x cur))
    rw [emitted_push hs.1, pending_push hs.1, hpush, hp, List.append_assoc, List.singleton_append]
    exact ⟨he, rfl⟩

/-- The end of a line, and blanks. -/
lemma scan_end (hs : ∀ x ∈ s, blank x) (h : AtEnd nl s) (hne : s ≠ []) :
    emitted nl blank cur s = whole cur ∧ pending nl blank cur s = [] := by
  obtain ⟨x, s, rfl⟩ := List.exists_cons_of_ne_nil hne
  have hx : nl x := h x (by simp)
  rw [List.forall_mem_cons] at hs
  obtain ⟨he, hp⟩ : emitted nl blank [] s = [] ∧ pending nl blank [] s = [] := scan_blank hs.2
  rw [emitted_nl hx, pending_nl hx, he, hp, List.append_nil]
  exact ⟨rfl, rfl⟩

/-- A part that starts with a line end reads the same at the start of a line. -/
lemma scan_atEnd (h : AtEnd nl s) (hne : s ≠ []) :
    emitted nl blank cur s = whole cur ++ emitted nl blank [] s ∧
      pending nl blank cur s = pending nl blank [] s := by
  obtain ⟨x, s, rfl⟩ := List.exists_cons_of_ne_nil hne
  have hx : nl x := h x (by simp)
  rw [emitted_nl hx, emitted_nl hx, pending_nl hx, pending_nl hx, whole_nil, List.nil_append]
  exact ⟨rfl, rfl⟩

/-! ## All texts -/

/-- The texts of all lines, the unfinished one included. -/
def texts (nl blank : α → Bool) (cur s : List α) : List (List α) :=
  emitted nl blank cur s ++ whole (pending nl blank cur s)

lemma texts_append (cur s t : List α) : texts nl blank cur (s ++ t) =
    emitted nl blank cur s ++ texts nl blank (pending nl blank cur s) t := by
  unfold texts
  rw [emitted_append, pending_append, List.append_assoc]

/-- The end of a line, or nothing, and then blanks. -/
lemma texts_trail (hs : ∀ x ∈ s, blank x) (h : cur ≠ [] → AtEnd nl s) :
    texts nl blank cur s = whole cur := by
  unfold texts
  by_cases hc : cur = []
  · obtain ⟨he, hp⟩ : emitted nl blank [] s = [] ∧ pending nl blank [] s = [] := scan_blank hs
    rw [hc, he, hp, List.nil_append]
  rcases eq_or_ne s [] with rfl | hne
  · rfl
  · obtain ⟨he, hp⟩ : emitted nl blank cur s = whole cur ∧ _ := scan_end hs (h hc) hne
    rw [he, hp, whole_nil, List.append_nil]

/-- The elements in a list of texts. -/
def weight (l : List (List α)) : ℕ := l.flatten.length

@[simp] lemma weight_append (l m : List (List α)) : weight (l ++ m) = weight l + weight m := by
  simp [weight]

@[simp] lemma weight_whole (cur : List α) : weight (whole cur) = cur.length := by
  unfold whole
  split
  · next h => simp [weight, h]
  · simp [weight]

lemma texts_nl {x : α} (h : nl x) : texts nl blank cur (x :: s) =
    whole cur ++ texts nl blank [] s := by
  unfold texts
  rw [emitted_nl h, pending_nl h, List.append_assoc]

lemma texts_push {x : α} (h : ¬nl x) : texts nl blank cur (x :: s) =
    texts nl blank (push blank cur x) s := by
  unfold texts
  rw [emitted_push h, pending_push h]

/-- What has been read of a line is never lost. -/
lemma length_le_weight (cur s : List α) : cur.length ≤ weight (texts nl blank cur s) := by
  induction s generalizing cur with
  | nil => exact (weight_whole cur).ge
  | cons x s ih =>
    by_cases hx : nl x
    · rw [texts_nl hx, weight_append, weight_whole]
      omega
    · rw [texts_push hx]
      refine le_trans ?_ (ih _)
      unfold push
      split
      · next h => simp [h.1]
      · simp

/-- Only blanks add nothing, and within a line only after its end. -/
lemma blank_of_weight (hnl : ∀ x, nl x → blank x)
    (h : weight (texts nl blank cur s) = cur.length) :
    (∀ x ∈ s, blank x) ∧ (cur ≠ [] → AtEnd nl s) := by
  induction s generalizing cur with
  | nil => exact ⟨by simp, fun _ => by simp [AtEnd]⟩
  | cons x s ih =>
    rw [List.forall_mem_cons]
    by_cases hx : nl x
    · rw [texts_nl hx, weight_append, weight_whole] at h
      have hs : weight (texts nl blank [] s) = ([] : List α).length := by
        rw [List.length_nil]
        omega
      exact ⟨⟨hnl x hx, (ih hs).1⟩, fun _ => by simpa [AtEnd] using hx⟩
    · rw [texts_push hx] at h
      have hle : _ ≤ weight (texts nl blank (push blank cur x) s) :=
        length_le_weight (push blank cur x) s
      unfold push at h hle
      split at h
      · next hc =>
        obtain ⟨rfl, hb⟩ := hc
        exact ⟨⟨hb, (ih h).1⟩, fun hne => absurd rfl hne⟩
      · next hc =>
        rw [if_neg hc, List.length_append, List.length_singleton] at hle
        omega

/-! ## One text of each part -/

/-- A part, of which a reader takes one text. -/
structure Cut (nl blank : α → Bool) where
  lead : List α
  text : List α
  rest : List α
  blank_lead : ∀ x ∈ lead, blank x
  line : ∀ x ∈ text, ¬nl x
  head : ∀ x ∈ text.head?, ¬blank x

namespace Cut

variable (k : Cut nl blank)

def part : List α := k.lead ++ (k.text ++ k.rest)

/-- Nothing is lost after the text, and the text is all of its line. -/
def Fits (cur : List α) : Prop :=
  (cur ≠ [] → AtEnd nl k.part) ∧ (∀ x ∈ k.rest, blank x) ∧ (k.text ≠ [] → AtEnd nl k.rest)

lemma texts_text (cur : List α) : texts nl blank cur (k.text ++ k.rest) =
    texts nl blank (cur ++ k.text) k.rest := by
  obtain ⟨he, hp⟩ : _ ∧ pending nl blank cur k.text = _ := scan_text k.line (.inr k.head)
  rw [texts_append, he, hp, List.nil_append]

variable {k}

lemma texts_part (hne : k.part ≠ []) (h : k.Fits cur) :
    texts nl blank cur k.part = whole cur ++ whole k.text := by
  have hstart : texts nl blank [] k.part = whole k.text := by
    obtain ⟨he, hp⟩ : _ ∧ pending nl blank [] k.lead = _ := scan_blank k.blank_lead
    rw [part, texts_append, he, hp, List.nil_append, texts_text, List.nil_append]
    exact texts_trail h.2.1 h.2.2
  by_cases hc : cur = []
  · rw [hc, hstart, whole_nil, List.nil_append]
  · obtain ⟨he, hp⟩ : _ ∧ pending nl blank cur k.part = _ := scan_atEnd (h.1 hc) hne
    rw [← hstart, texts, texts, he, hp, List.append_assoc]

/-- The texts of a part are at least as long as what the reader has of them. -/
lemma le_weight (k : Cut nl blank) (cur : List α) :
    cur.length + k.text.length ≤ weight (texts nl blank cur k.part) := by
  have hlead : _ ≤ weight (texts nl blank cur k.lead) := length_le_weight cur k.lead
  have hrest : _ ≤ weight (texts nl blank (pending nl blank cur k.lead ++ k.text) k.rest) :=
    length_le_weight _ k.rest
  rw [part, texts_append, texts_text, weight_append]
  rw [texts, weight_append, weight_whole] at hlead
  rw [List.length_append] at hrest
  omega

/-- Where nothing is lost, only blanks surround the text, and they start with a line end. -/
lemma blank_around (hnl : ∀ x, nl x → blank x)
    (h : weight (texts nl blank cur k.part) = cur.length + k.text.length) :
    (cur ≠ [] → AtEnd nl k.lead) ∧ (∀ x ∈ k.rest, blank x) ∧
      (pending nl blank cur k.lead ++ k.text ≠ [] → AtEnd nl k.rest) := by
  have hlead : _ ≤ weight (texts nl blank cur k.lead) := length_le_weight cur k.lead
  have hrest : _ ≤ weight (texts nl blank (pending nl blank cur k.lead ++ k.text) k.rest) :=
    length_le_weight _ k.rest
  have hsplit : weight (texts nl blank cur k.lead) =
      weight (emitted nl blank cur k.lead) + (pending nl blank cur k.lead).length := by
    rw [texts, weight_append, weight_whole]
  rw [part, texts_append, texts_text, weight_append] at h
  rw [List.length_append] at hrest
  have hlead' : weight (texts nl blank cur k.lead) = cur.length := by omega
  have hrest' : weight (texts nl blank (pending nl blank cur k.lead ++ k.text) k.rest) =
      (pending nl blank cur k.lead ++ k.text).length := by
    rw [List.length_append]
    omega
  exact ⟨(blank_of_weight hnl hlead').2, blank_of_weight hnl hrest'⟩

/-- A part that goes on with an unfinished line: its text is joined to it. -/
lemma texts_joined (hnl : ∀ x, nl x → blank x) (hc : cur ≠ []) (hat : ¬AtEnd nl k.part)
    (h : weight (texts nl blank cur k.part) = cur.length + k.text.length) :
    texts nl blank cur k.part = whole (cur ++ k.text) ∧ k.text ≠ [] := by
  obtain ⟨hatLead, hblank, hatRest⟩ := blank_around hnl h
  have hlead : k.lead = [] := by
    by_contra hl
    refine hat fun x hx => hatLead hc x ?_
    rwa [part, List.head?_append_of_ne_nil _ hl] at hx
  rw [hlead, pending] at hatRest
  have hpart : k.part = k.text ++ k.rest := by rw [part, hlead, List.nil_append]
  have hjoined : cur ++ k.text ≠ [] := List.append_ne_nil_of_left_ne_nil hc _
  constructor
  · rw [hpart, texts_text]
    exact texts_trail hblank fun _ => hatRest hjoined
  · intro ht
    refine hat ?_
    rw [hpart, ht]
    exact hatRest hjoined

/-- Where nothing is lost, the texts of a part are at most as many as what the reader has,
and as many only if the part fits. -/
lemma fits_of_weight (hnl : ∀ x, nl x → blank x) (hne : k.part ≠ [])
    (h : weight (texts nl blank cur k.part) = cur.length + k.text.length) :
    (texts nl blank cur k.part).length ≤ (whole cur ++ whole k.text).length ∧
      ((texts nl blank cur k.part).length = (whole cur ++ whole k.text).length → k.Fits cur) := by
  by_cases hat : cur ≠ [] → AtEnd nl k.part
  · obtain ⟨-, hblank, hatRest⟩ := blank_around hnl h
    have hfits : k.Fits cur :=
      ⟨hat, hblank, fun ht => hatRest (List.append_ne_nil_of_right_ne_nil _ ht)⟩
    rw [texts_part hne hfits]
    exact ⟨le_rfl, fun _ => hfits⟩
  · obtain ⟨hc, hat⟩ := Classical.not_imp.1 hat
    obtain ⟨hone, htext⟩ := texts_joined hnl hc hat h
    have hlength : (texts nl blank cur k.part).length < (whole cur ++ whole k.text).length := by
      rw [hone, whole_of_ne hc, whole_of_ne htext,
        whole_of_ne (List.append_ne_nil_of_left_ne_nil hc _)]
      simp
    exact ⟨hlength.le, fun heq => absurd heq hlength.ne⟩

/-- Every part fits after the ones before it. -/
def Fitting (cur : List α) : List (Cut nl blank) → Prop
  | [] => True
  | k :: l => k.Fits cur ∧ Fitting (pending nl blank cur k.part) l

/-- What the reader takes of the parts. -/
def taken (l : List (Cut nl blank)) : List (List α) := l.flatMap fun k => whole k.text

variable {l : List (Cut nl blank)}

lemma texts_of_fitting (hne : ∀ k ∈ l, k.part ≠ []) (h : Fitting cur l) :
    texts nl blank cur (l.flatMap part) = whole cur ++ taken l := by
  induction l generalizing cur with
  | nil => simp [texts, emitted, pending, taken]
  | cons k l ih =>
    rw [List.forall_mem_cons] at hne
    have hk : texts nl blank cur k.part = _ := texts_part hne.1 h.1
    rw [List.flatMap_cons, texts_append, ih hne.2 h.2, ← List.append_assoc]
    change texts nl blank cur k.part ++ taken l = whole cur ++ (whole k.text ++ taken l)
    rw [hk, List.append_assoc]

lemma le_weight_taken (cur : List α) (l : List (Cut nl blank)) :
    cur.length + weight (taken l) ≤ weight (texts nl blank cur (l.flatMap part)) := by
  induction l generalizing cur with
  | nil => exact length_le_weight cur []
  | cons k l ih =>
    have hk : _ ≤ weight (texts nl blank cur k.part) := k.le_weight cur
    have hl : _ ≤ weight (texts nl blank (pending nl blank cur k.part) _) := ih _
    rw [texts, weight_append, weight_whole] at hk
    change _ + weight (whole k.text ++ taken l) ≤ _
    rw [List.flatMap_cons, texts_append, weight_append, weight_append, weight_whole]
    omega

lemma fitting_of_weight (hnl : ∀ x, nl x → blank x) (hne : ∀ k ∈ l, k.part ≠ [])
    (h : weight (texts nl blank cur (l.flatMap part)) = cur.length + weight (taken l)) :
    (texts nl blank cur (l.flatMap part)).length ≤ (whole cur ++ taken l).length ∧
      ((texts nl blank cur (l.flatMap part)).length = (whole cur ++ taken l).length →
        Fitting cur l) := by
  induction l generalizing cur with
  | nil =>
    refine ⟨?_, fun _ => trivial⟩
    simp [texts, emitted, pending, taken]
  | cons k l ih =>
    rw [List.forall_mem_cons] at hne
    have htaken : taken (k :: l) = whole k.text ++ taken l := rfl
    have hk : _ ≤ weight (texts nl blank cur k.part) := k.le_weight cur
    have hl : _ ≤ weight (texts nl blank (pending nl blank cur k.part) _) := le_weight_taken _ l
    have hsplit : texts nl blank cur k.part = _ ++ _ := rfl
    rw [hsplit, weight_append, weight_whole] at hk
    rw [htaken, List.flatMap_cons, texts_append, weight_append, weight_append, weight_whole] at h
    have hweight : weight (texts nl blank cur k.part) = cur.length + k.text.length := by
      rw [hsplit, weight_append, weight_whole]
      omega
    obtain ⟨hlen, hfits⟩ := fits_of_weight hnl hne.1 hweight
    have hweight' : weight (texts nl blank (pending nl blank cur k.part) (l.flatMap part)) =
        (pending nl blank cur k.part).length + weight (taken l) := by omega
    obtain ⟨hlen', hfitting⟩ := ih hne.2 hweight'
    rw [htaken, List.flatMap_cons, texts_append]
    simp only [hsplit, List.length_append] at hlen hlen' hfits hfitting ⊢
    exact ⟨by omega, fun heq => ⟨hfits (by omega), hfitting (by omega)⟩⟩

/-- One text of each part gives the texts of the whole exactly when every part fits. -/
theorem taken_eq_texts_iff (hnl : ∀ x, nl x → blank x) (hne : ∀ k ∈ l, k.part ≠ []) :
    taken l = texts nl blank [] (l.flatMap part) ↔ Fitting [] l := by
  constructor
  · intro h
    refine (fitting_of_weight hnl hne ?_).2 ?_
    · rw [← h, List.length_nil, zero_add]
    · rw [← h, whole_nil, List.nil_append]
  · intro h
    rw [texts_of_fitting hne h, whole_nil, List.nil_append]

end Cut

end WebTester.Fields
