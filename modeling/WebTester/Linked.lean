import Mathlib.Logic.Function.Basic
import Mathlib.Data.List.Basic
import Mathlib.Data.List.Nodup

/-!
# Paths along links

A link leads from an address to the next one or nowhere. A path lists the addresses passed from a
given pointer on. A path that ends nowhere passes no address twice and is the only one from its
start, so a list that is spelled by links is finite and acyclic. The rules below are for the three
changes that are made to linked lists: a new address in front, a new end, and an address left out.
-/
namespace WebTester.Linked

variable {α : Type*} {link link' : α → Option α} {p q r : Option α} {a b c : α} {l l₁ l₂ : List α}

/-- From `p` the links lead through `l` to `q`. -/
def Path (link : α → Option α) : Option α → List α → Option α → Prop
  | p, [], q => p = q
  | p, a :: l, q => p = some a ∧ Path link (link a) l q

@[simp] theorem path_nil : Path link p [] q ↔ p = q := Iff.rfl

@[simp] theorem path_cons : Path link p (a :: l) q ↔ p = some a ∧ Path link (link a) l q := Iff.rfl

theorem path_append :
    Path link p (l₁ ++ l₂) q ↔ ∃ r, Path link p l₁ r ∧ Path link r l₂ q := by
  induction l₁ generalizing p with
  | nil => simp
  | cons a l₁ ih => simp [ih, and_assoc]

/-- The links after a write through a pointer; a write through none is not made. -/
def redirect [DecidableEq α] (link : α → Option α) (p v : Option α) : α → Option α :=
  match p with
  | none => link
  | some c => Function.update link c v

theorem redirect_of_ne [DecidableEq α] {v : Option α} (h : p ≠ some a) :
    redirect link p v a = link a := by
  cases p with
  | none => rfl
  | some c => exact Function.update_of_ne (by rintro rfl; exact h rfl) _ _

namespace Path

theorem congr (h : Path link p l q) (hlink : ∀ a ∈ l, link' a = link a) : Path link' p l q := by
  induction l generalizing p with
  | nil => exact h
  | cons a l ih =>
    obtain ⟨rfl, h⟩ := h
    refine ⟨rfl, ?_⟩
    rw [hlink a (by simp)]
    exact ih h fun b hb => hlink b (by simp [hb])

theorem eq_head? (h : Path link p l none) : p = l.head? := by
  cases l with
  | nil => exact h
  | cons a l => exact h.1

/-- The link of an address on a path leads to the address after it. -/
theorem link_eq (h : Path link p (l₁ ++ a :: l₂) none) : link a = l₂.head? := by
  obtain ⟨r, -, -, h⟩ := path_append.1 h
  exact h.eq_head?

/-- There is one path from an address to nowhere. -/
theorem unique (h₁ : Path link p l₁ none) (h₂ : Path link p l₂ none) : l₁ = l₂ := by
  induction l₁ generalizing p l₂ with
  | nil =>
    obtain rfl : p = none := h₁
    cases l₂ with
    | nil => rfl
    | cons b l₂ => simp at h₂
  | cons a l₁ ih =>
    obtain ⟨rfl, h₁⟩ := h₁
    cases l₂ with
    | nil => simp at h₂
    | cons b l₂ =>
      obtain ⟨hb, h₂⟩ := h₂
      obtain rfl : a = b := Option.some.inj hb
      rw [ih h₁ h₂]

/-- An address passed twice would have two paths of different lengths to nowhere. -/
theorem nodup (h : Path link p l none) : l.Nodup := by
  induction l generalizing p with
  | nil => exact .nil
  | cons a l ih =>
    obtain ⟨-, h⟩ := h
    refine List.nodup_cons.2 ⟨fun ha => ?_, ih h⟩
    obtain ⟨l₁, l₂, rfl⟩ := List.append_of_mem ha
    obtain ⟨r, -, -, h₂⟩ := path_append.1 h
    have hlength := congrArg List.length (h.unique h₂)
    simp at hlength
    omega

theorem notMem (h : Path link p (l₁ ++ a :: l₂) none) : a ∉ l₁ ∧ a ∉ l₂ := by
  have hnodup := List.nodup_middle.1 h.nodup
  simpa using (List.nodup_cons.1 hnodup).1

variable [DecidableEq α]

theorem update_of_notMem (h : Path link p l q) (ha : a ∉ l) :
    Path (Function.update link a r) p l q :=
  h.congr fun b hb => Function.update_of_ne (by rintro rfl; exact ha hb) _ _

/-- A new address in front. -/
theorem cons_update (h : Path link p l q) (ha : a ∉ l) :
    Path (Function.update link a p) (some a) (a :: l) q :=
  ⟨rfl, by simpa using h.update_of_notMem ha⟩

/-- The last link of a path may lead elsewhere. -/
theorem relink (h : Path link p (l ++ [c]) q) (hc : c ∉ l) :
    Path (Function.update link c r) p (l ++ [c]) r := by
  obtain ⟨s, hs, rfl, -⟩ := path_append.1 h
  exact path_append.2 ⟨some c, hs.update_of_notMem hc, rfl, by simp⟩

/-- A new address behind the last one. -/
theorem concat_update (h : Path link p l none) (hb : b ∉ l) (hlink : link b = none) :
    Path (redirect link l.getLast? (some b)) (l ++ [b]).head? (l ++ [b]) none := by
  rcases List.eq_nil_or_concat' l with rfl | ⟨l, c, rfl⟩
  · simpa [redirect] using hlink
  · have hne : b ≠ c := by
      rintro rfl
      exact hb (by simp)
    have hp : p = (l ++ [c] ++ [b]).head? := by
      rw [h.eq_head?]
      simp
    rw [← hp, List.getLast?_concat]
    refine path_append.2 ⟨some b, h.relink h.notMem.1, rfl, ?_⟩
    simpa [redirect, Function.update_of_ne hne] using hlink

/-- An address is left out: the one before it gets its link. -/
theorem unlink (h : Path link p (l₁ ++ a :: l₂) none) :
    Path (redirect link l₁.getLast? (link a)) (l₁ ++ l₂).head? (l₁ ++ l₂) none := by
  obtain ⟨r, h₁, rfl, h₂⟩ := path_append.1 h
  rcases List.eq_nil_or_concat' l₁ with rfl | ⟨l₁, c, rfl⟩
  · have hhead := h₂.eq_head?
    simpa [redirect, hhead] using h₂
  · have hp : p = (l₁ ++ [c] ++ l₂).head? := by
      rw [h.eq_head?]
      simp
    have hc : c ∉ l₁ ∧ c ∉ a :: l₂ := by
      rw [List.append_assoc] at h
      exact h.notMem
    rw [← hp, List.getLast?_concat]
    exact path_append.2 ⟨link a, h₁.relink hc.1,
      h₂.update_of_notMem fun hmem => hc.2 (List.mem_cons_of_mem a hmem)⟩

end Path

end WebTester.Linked
