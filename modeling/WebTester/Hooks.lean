import Mathlib.Data.List.Nodup
import Mathlib.Logic.Function.Basic
import Mathlib.Data.Int.Notation
import WebTester.CString
import WebTester.Transition

/-!
# Hooks

Handlers are kept in one list for each of 64 priorities, and `hook_call` goes through the lists from
the highest priority down. A handler may itself register and remove handlers, in the list that is
just being gone through too, so a call is a machine of its own that takes a step for every node; the
pointer to the present node is what it keeps between two steps. `stamp` counts the handlers that
were ever registered; the code has the address of the node instead.
-/
namespace WebTester.Hooks
open CString Transition

/-- `hook_t`. -/
structure Hook where
  proc : CStr
  callback : ℕ
  userData : ℕ
  deriving DecidableEq, Repr

/-- A node of a list. -/
structure Entry where
  stamp : ℕ
  hook : Hook
  deriving DecidableEq, Repr

/-- `hooks`, unless it is `NULL`. -/
structure Registry where
  lists : Option (Fin 64 → List Entry)
  stamp : ℕ

namespace Registry

def initial : Registry := ⟨none, 0⟩

/-- The list of a priority. -/
def list (s : Registry) (p : Fin 64) : List Entry := (s.lists.map fun f => f p).getD []

/-- `hook_init`. -/
def hookInit (s : Registry) : Registry :=
  match s.lists with
  | some _ => s
  | none => { s with lists := some fun _ => [] }

/-- `hook_done`. -/
def hookDone (s : Registry) : Registry := { s with lists := none }

/-- An argument that is a priority. -/
def priority (n : ℤ) : Option (Fin 64) :=
  if h : 0 ≤ n ∧ n < 64 then some ⟨n.toNat, by omega⟩ else none

/-- `hook_register`. A name that fills its buffer has no end there. -/
def hookRegister (s : Registry) (hook : Hook) (n : ℤ) : Option (Registry × ℤ) :=
  match priority n with
  | none => some (s, -1)
  | some p =>
    if hook.proc.length < 1024 then
      let s := s.hookInit
      some (⟨some (Function.update s.list p (s.list p ++ [⟨s.stamp, hook⟩])), s.stamp + 1⟩, 0)
    else none

/-- The loop of `hook_unregister`: what is left of the list, and `res`. -/
def unregisterLoop (proc : CStr) (callback : ℕ) : List Entry → ℤ → List Entry × ℤ
  | [], res => ([], res)
  | e :: l, res =>
    if e.hook.callback = callback ∧ e.hook.proc = proc then unregisterLoop proc callback l 0
    else (e :: (unregisterLoop proc callback l res).1, (unregisterLoop proc callback l res).2)

/-- `hook_unregister`; where nothing was ever registered, `NULL` is read. -/
def hookUnregister (s : Registry) (proc : CStr) (callback : ℕ) (n : ℤ) : Option (Registry × ℤ) :=
  match priority n with
  | none => some (s, -1)
  | some p => s.lists.map fun f =>
    let r := unregisterLoop proc callback (f p) (-1)
    ({ s with lists := some (Function.update f p r.1) }, r.2)

end Registry

/-- What a handler may do to the lists. -/
inductive Change
  | register (hook : Hook) (priority : ℤ)
  | unregister (proc : CStr) (callback : ℕ) (priority : ℤ)
  deriving DecidableEq, Repr

def Change.exec (s : Registry) : Change → Option Registry
  | .register hook n => (s.hookRegister hook n).map Prod.fst
  | .unregister proc callback n => (s.hookUnregister proc callback n).map Prod.fst

/-- What happens between two calls. -/
inductive Op
  | init
  | change (c : Change)
  | done
  deriving DecidableEq, Repr

def Op.exec (s : Registry) : Op → Option Registry
  | .init => some s.hookInit
  | .change c => c.exec s
  | .done => some s.hookDone

/-! ## A call -/

/-- `hook_call` goes through a list from its head, `hook_call_backward` from its tail. -/
inductive Direction
  | forward
  | backward
  deriving DecidableEq, Repr

/-- A list as it is gone through. -/
def Direction.view (d : Direction) (l : List Entry) : List Entry :=
  match d with
  | .forward => l
  | .backward => l.reverse

/-- What a handler does, and what it returns. -/
structure Reaction where
  changes : List Change
  result : ℤ
  deriving DecidableEq, Repr

/-- Nothing is called in a step. -/
def Reaction.silent : Reaction := ⟨[], 0⟩

/-- The variables of a call: the priority, the node that is next, the nodes whose handlers were
called, and what was returned. -/
structure Call where
  hooks : Registry
  priority : Fin 64
  cur : Option ℕ
  log : List (Fin 64 × ℕ)
  result : Option ℤ

/-- The first node of a list. -/
def first (d : Direction) (l : List Entry) : Option ℕ := (d.view l).head?.map (·.stamp)

/-- The node behind this one, which must still be there. -/
def behind (d : Direction) (l : List Entry) (a : ℕ) : Option (Option ℕ) :=
  match (d.view l).dropWhile (·.stamp ≠ a) with
  | [] => none
  | _ :: rest => some (rest.head?.map (·.stamp))

namespace Call

/-- The beginning of a call. -/
def start (d : Direction) (s : Registry) : Call where
  hooks := s
  priority := Fin.last 63
  cur := first d (s.list (Fin.last 63))
  log := []
  result := if s.lists.isNone then some 0 else none

/-- The end of the body: the pointer moves on. -/
def advance (d : Direction) (c : Call) (a : ℕ) : Option Call :=
  (behind d (c.hooks.list c.priority) a).map fun cur => { c with cur }

/-- The handler of a node is called. -/
def visit (c : Call) (a : ℕ) (r : Reaction) : Option Call :=
  (r.changes.foldlM Change.exec c.hooks).map fun s =>
    { c with hooks := s, log := c.log ++ [(c.priority, a)] }

/-- One step of a call. -/
def next (d : Direction) (proc : CStr) (c : Call) (r : Reaction) : Option Call :=
  if c.result ≠ none then none
  else match c.cur with
    | none =>
      if r ≠ .silent then none
      else if c.priority = 0 then some { c with result := some 0 }
      else some { c with
        priority := c.priority - 1, cur := first d (c.hooks.list (c.priority - 1)) }
    | some a => do
      let e ← (c.hooks.list c.priority).find? (·.stamp = a)
      if e.hook.proc = proc then
        let c ← c.visit a r
        if r.result ≠ 0 then some { c with result := some (-1) } else c.advance d a
      else if r ≠ .silent then none
      else c.advance d a

end Call

/-- A node is called before another of its list. -/
def Direction.Lt (d : Direction) (a b : ℕ) : Prop :=
  match d with
  | .forward => a < b
  | .backward => b < a

/-- The order in which nodes are called: by priority from the highest down, and among equal ones in
the order of their registration, or against it. -/
def Before (d : Direction) (x y : Fin 64 × ℕ) : Prop :=
  y.1 < x.1 ∨ x.1 = y.1 ∧ d.Lt x.2 y.2

/-! ## Changes of the lists -/

/-- What any changes leave: of every list some nodes in their order, and new nodes behind them. -/
structure Grown (s t : Registry) : Prop where
  stamp_le : s.stamp ≤ t.stamp
  lists : ∀ p, ∃ kept new, t.list p = kept ++ new ∧ kept.Sublist (s.list p) ∧
    new.Pairwise (fun e f => e.stamp < f.stamp) ∧ ∀ e ∈ new, s.stamp ≤ e.stamp ∧ e.stamp < t.stamp

namespace Grown

variable {s t u : Registry}

theorem refl (s : Registry) : Grown s s where
  stamp_le := le_rfl
  lists p := ⟨s.list p, [], by simp, List.Sublist.refl _, .nil, by simp⟩

theorem trans (hst : Grown s t) (htu : Grown t u) : Grown s u where
  stamp_le := hst.stamp_le.trans htu.stamp_le
  lists p := by
    obtain ⟨kept, new, ht, hkept, hnew, hstamp⟩ := hst.lists p
    obtain ⟨kept', new', hu, hkept', hnew', hstamp'⟩ := htu.lists p
    rw [ht, List.sublist_append_iff] at hkept'
    obtain ⟨a, b, rfl, ha, hb⟩ := hkept'
    refine ⟨a, b ++ new', by rw [hu, List.append_assoc], ha.trans hkept, ?_, ?_⟩
    · rw [List.pairwise_append]
      refine ⟨hnew.sublist hb, hnew', fun e he f hf => ?_⟩
      exact (hstamp e (hb.subset he)).2.trans_le (hstamp' f hf).1
    · intro e he
      rcases List.mem_append.1 he with he | he
      · have h := hstamp e (hb.subset he)
        exact ⟨h.1, h.2.trans_le htu.stamp_le⟩
      · have h := hstamp' e he
        exact ⟨hst.stamp_le.trans h.1, h.2⟩

/-- A node with an old stamp is an old node. -/
theorem mem_of_lt (h : Grown s t) {p : Fin 64} {e : Entry} (he : e ∈ t.list p)
    (hlt : e.stamp < s.stamp) : e ∈ s.list p := by
  obtain ⟨kept, new, ht, hkept, -, hstamp⟩ := h.lists p
  rw [ht] at he
  rcases List.mem_append.1 he with he | he
  · exact hkept.subset he
  · have := (hstamp e he).1
    omega

/-- One list loses some nodes. -/
theorem of_sublist {f : Fin 64 → List Entry} (hs : s.lists = some f) {p : Fin 64}
    {l : List Entry} (hl : l.Sublist (f p)) :
    Grown s { s with lists := some (Function.update f p l) } where
  stamp_le := le_rfl
  lists q := by
    refine ⟨_, [], (List.append_nil _).symm, ?_, .nil, by simp⟩
    simp only [Registry.list, hs, Option.map_some, Option.getD_some]
    by_cases hq : q = p
    · subst hq
      simpa using hl
    · rw [Function.update_of_ne hq]

end Grown

namespace Registry

variable {s t : Registry}

/-- The lists of handlers are in the order of their registration. -/
def Ordered (s : Registry) : Prop :=
  ∀ p, (s.list p).Pairwise (fun e f => e.stamp < f.stamp) ∧ ∀ e ∈ s.list p, e.stamp < s.stamp

theorem ordered_of_grown (h : Grown initial s) : s.Ordered := by
  intro p
  obtain ⟨kept, new, hs, hkept, hnew, hstamp⟩ := h.lists p
  have hnil : kept = [] := by simpa [list, initial] using hkept
  rw [hs, hnil, List.nil_append]
  exact ⟨hnew, fun e he => (hstamp e he).2⟩

@[simp] theorem list_hookInit (s : Registry) (p : Fin 64) : s.hookInit.list p = s.list p := by
  cases hs : s.lists <;> simp [hookInit, hs, list]

@[simp] theorem stamp_hookInit (s : Registry) : s.hookInit.stamp = s.stamp := by
  cases hs : s.lists <;> simp [hookInit, hs]

theorem grown_hookInit (s : Registry) : Grown s s.hookInit where
  stamp_le := by simp
  lists p := by simpa using (Grown.refl s).lists p

theorem grown_hookDone (s : Registry) : Grown s s.hookDone where
  stamp_le := le_rfl
  lists p := ⟨[], [], by simp [hookDone, list], by simp, .nil, by simp⟩

/-- A new node is the last of its list. -/
theorem grown_hookRegister {hook : Hook} {n r : ℤ} (h : s.hookRegister hook n = some (t, r)) :
    Grown s t := by
  simp only [hookRegister] at h
  split at h
  · cases h
    exact .refl s
  · split_ifs at h
    cases h
    refine ⟨by simp, fun q => ?_⟩
    simp only [list_hookInit, stamp_hookInit]
    rename_i p _ _
    by_cases hq : q = p
    · subst hq
      exact ⟨s.list q, [⟨s.stamp, hook⟩], by simp [list], List.Sublist.refl _, by simp, by simp⟩
    · refine ⟨s.list q, [], ?_, List.Sublist.refl _, .nil, by simp⟩
      simpa [list, Function.update_of_ne hq] using s.list_hookInit q

theorem unregisterLoop_sublist (proc : CStr) (callback : ℕ) (l : List Entry) (res : ℤ) :
    (unregisterLoop proc callback l res).1.Sublist l := by
  induction l generalizing res with
  | nil => exact List.Sublist.refl _
  | cons e l ih =>
    rw [unregisterLoop]
    split_ifs
    · exact (ih 0).cons e
    · exact (ih res).cons_cons e

theorem grown_hookUnregister {proc : CStr} {callback : ℕ} {n r : ℤ}
    (h : s.hookUnregister proc callback n = some (t, r)) : Grown s t := by
  simp only [hookUnregister] at h
  split at h
  · cases h
    exact .refl s
  · rw [Option.map_eq_some_iff] at h
    obtain ⟨f, hf, h⟩ := h
    cases h
    exact .of_sublist hf (unregisterLoop_sublist proc callback (f _) (-1))

end Registry

theorem Change.grown {s t : Registry} {c : Change} (h : c.exec s = some t) : Grown s t := by
  cases c with
  | register hook n =>
    rw [Change.exec, Option.map_eq_some_iff] at h
    obtain ⟨⟨t', r⟩, h, rfl⟩ := h
    exact Registry.grown_hookRegister h
  | unregister proc callback n =>
    rw [Change.exec, Option.map_eq_some_iff] at h
    obtain ⟨⟨t', r⟩, h, rfl⟩ := h
    exact Registry.grown_hookUnregister h

theorem Op.grown {s t : Registry} {o : Op} (h : o.exec s = some t) : Grown s t := by
  cases o with
  | init =>
    cases h
    exact s.grown_hookInit
  | change c => exact Change.grown h
  | done =>
    cases h
    exact s.grown_hookDone

/-- What no step undoes, no run undoes. -/
theorem grown_of_run {ε : Type*} {exec : Registry → ε → Option Registry} {s t : Registry}
    {es : List ε} (hstep : ∀ s e t, exec s e = some t → Grown s t)
    (h : es.foldlM exec s = some t) : Grown s t :=
  (Run.of_foldlM h).invariant (I := Grown s) (fun u e v hu hv => hu.trans (hstep u e v hv))
    (.refl s)

/-! ## The run of a call -/

/-- A node lies before the place a call has come to. -/
def Earlier (d : Direction) (a : ℕ) (cur : Option ℕ) : Prop := ∀ b ∈ cur, d.Lt a b

theorem Direction.Lt.trans {d : Direction} {a b c : ℕ} (hab : d.Lt a b) (hbc : d.Lt b c) :
    d.Lt a c := by
  cases d <;> simp only [Direction.Lt] at * <;> omega

theorem Direction.Lt.irrefl {d : Direction} {a : ℕ} : ¬d.Lt a a := by
  cases d <;> simp [Direction.Lt]

theorem Direction.mem_view {d : Direction} {l : List Entry} {e : Entry} :
    e ∈ d.view l ↔ e ∈ l := by
  cases d <;> simp [Direction.view]

theorem Direction.pairwise_view {d : Direction} {l : List Entry}
    (h : l.Pairwise fun e f => e.stamp < f.stamp) :
    (d.view l).Pairwise fun e f => d.Lt e.stamp f.stamp := by
  cases d with
  | forward => exact h
  | backward => simpa [Direction.view, Direction.Lt, List.pairwise_reverse] using h

section Sorted

variable {d : Direction} {l : List Entry} {a : ℕ} {cur : Option ℕ}

theorem eq_of_stamp_eq (h : l.Pairwise fun e f => e.stamp < f.stamp) {e f : Entry} (he : e ∈ l)
    (hf : f ∈ l) (hef : e.stamp = f.stamp) : e = f := by
  have hnodup : (l.map (·.stamp)).Nodup := List.pairwise_map.2 (h.imp fun hlt => hlt.ne)
  exact List.inj_on_of_nodup_map hnodup he hf hef

/-- Nothing lies before the head of what is left. -/
theorem not_earlier_head {l : List Entry} (h : l.Pairwise fun e f => d.Lt e.stamp f.stamp)
    {e : Entry} (he : e ∈ l) : ¬Earlier d e.stamp (l.head?.map (·.stamp)) := by
  intro hlt
  cases l with
  | nil => simp at he
  | cons f l =>
    have hef : d.Lt e.stamp f.stamp := hlt _ (by simp)
    rcases List.mem_cons.1 he with rfl | he
    · exact Direction.Lt.irrefl hef
    · exact Direction.Lt.irrefl (hef.trans ((List.pairwise_cons.1 h).1 e he))

theorem not_earlier_first (h : l.Pairwise fun e f => e.stamp < f.stamp) {e : Entry}
    (he : e ∈ l) : ¬Earlier d e.stamp (first d l) :=
  not_earlier_head (Direction.pairwise_view h) (Direction.mem_view.2 he)

/-- Behind a node lies the rest of its list. -/
theorem behind_eq (h : behind d l a = some cur) : ∃ done e rest,
    d.view l = done ++ e :: rest ∧ e.stamp = a ∧ cur = rest.head?.map (·.stamp) := by
  rw [behind] at h
  split at h
  case h_1 => cases h
  case h_2 e rest hdrop =>
    cases h
    refine ⟨(d.view l).takeWhile (·.stamp ≠ a), e, rest, ?_, ?_, rfl⟩
    · rw [← hdrop, List.takeWhile_append_dropWhile]
    · have he := List.head?_dropWhile_not (fun e : Entry => decide (e.stamp ≠ a)) (d.view l)
      rw [hdrop] at he
      simpa using he

/-- The place behind a node: before it lie the node and what lay before the node. -/
theorem of_earlier_behind (hl : l.Pairwise fun e f => e.stamp < f.stamp)
    (h : behind d l a = some cur) {e : Entry} (he : e ∈ l) :
    Earlier d e.stamp cur → e.stamp = a ∨ d.Lt e.stamp a := by
  intro hlt
  obtain ⟨done, f, rest, hview, rfl, rfl⟩ := behind_eq h
  have hsorted := Direction.pairwise_view (d := d) hl
  rw [hview, List.pairwise_append, List.pairwise_cons] at hsorted
  rw [← Direction.mem_view (d := d), hview, List.mem_append, List.mem_cons] at he
  rcases he with he | rfl | he
  · exact .inr (hsorted.2.2 e he f (by simp))
  · exact .inl rfl
  · exact absurd hlt (not_earlier_head hsorted.2.1.2 he)

theorem lt_of_behind (hl : l.Pairwise fun e f => e.stamp < f.stamp)
    (h : behind d l a = some cur) : Earlier d a cur := by
  intro b hb
  obtain ⟨done, f, rest, hview, rfl, rfl⟩ := behind_eq h
  have hsorted := Direction.pairwise_view (d := d) hl
  rw [hview, List.pairwise_append, List.pairwise_cons] at hsorted
  obtain ⟨g, hg, rfl⟩ := Option.map_eq_some_iff.1 hb
  exact hsorted.2.1.1 g (List.mem_of_mem_head? hg)

end Sorted

namespace Call

/-- What holds of a call at all times. -/
structure Sound (d : Direction) (proc : CStr) (s : Registry) (c : Call) : Prop where
  initial : Grown .initial c.hooks
  ordered : c.hooks.Ordered
  grown : Grown s c.hooks
  sorted : c.log.Pairwise (Before d)
  called : ∀ x ∈ c.log, x.2 < s.stamp → ∃ e ∈ s.list x.1, e.stamp = x.2 ∧ e.hook.proc = proc

/-- A node of the name was called, if it was there at the beginning. -/
def Called (proc : CStr) (s : Registry) (c : Call) (p : Fin 64) (e : Entry) : Prop :=
  e.stamp < s.stamp → e.hook.proc = proc → (p, e.stamp) ∈ c.log

/-- What holds of a call between two steps: where it has come to. -/
structure Going (d : Direction) (proc : CStr) (s : Registry) (c : Call) : Prop where
  above : ∀ p, c.priority < p → ∀ e ∈ c.hooks.list p, Called proc s c p e
  here : ∀ e ∈ c.hooks.list c.priority, Earlier d e.stamp c.cur → Called proc s c c.priority e
  behind : ∀ x ∈ c.log, c.priority < x.1 ∨ x.1 = c.priority ∧ Earlier d x.2 c.cur

/-- What holds of a call when the node it is at is done with. -/
structure Passing (d : Direction) (proc : CStr) (s : Registry) (c : Call) (a : ℕ) : Prop where
  above : ∀ p, c.priority < p → ∀ e ∈ c.hooks.list p, Called proc s c p e
  here : ∀ e ∈ c.hooks.list c.priority, e.stamp = a ∨ d.Lt e.stamp a →
    Called proc s c c.priority e
  behind : ∀ x ∈ c.log, c.priority < x.1 ∨ x.1 = c.priority ∧ (x.2 = a ∨ d.Lt x.2 a)

/-- What holds of a call that went through. -/
def Complete (proc : CStr) (s : Registry) (c : Call) : Prop :=
  ∀ p, ∀ e ∈ c.hooks.list p, Called proc s c p e

section Steps

variable {d : Direction} {proc : CStr} {s : Registry} {c c' : Call} {a : ℕ} {e : Entry}
  {r : Reaction}

theorem visit_eq (h : c.visit a r = some c') : ∃ t, Grown c.hooks t ∧
    c' = { c with hooks := t, log := c.log ++ [(c.priority, a)] } := by
  rw [visit, Option.map_eq_some_iff] at h
  obtain ⟨t, ht, rfl⟩ := h
  exact ⟨t, grown_of_run (fun _ _ _ => Change.grown) ht, rfl⟩

/-- A handler that is called was there at the beginning, or registered since. -/
theorem Sound.visit (hc : Sound d proc s c) (hg : Going d proc s c) (hcur : c.cur = some a)
    (he : e ∈ c.hooks.list c.priority) (hea : e.stamp = a) (hproc : e.hook.proc = proc)
    (h : c.visit a r = some c') : Sound d proc s c' := by
  obtain ⟨t, ht, rfl⟩ := visit_eq h
  refine ⟨hc.initial.trans ht, Registry.ordered_of_grown (hc.initial.trans ht),
    hc.grown.trans ht, ?_, ?_⟩
  · rw [List.pairwise_append]
    refine ⟨hc.sorted, List.pairwise_singleton _ _, fun x hx y hy => ?_⟩
    obtain rfl := List.mem_singleton.1 hy
    rcases hg.behind x hx with hx | ⟨hx, hlt⟩
    · exact .inl hx
    · exact .inr ⟨hx, hlt a (by simp [hcur])⟩
  · intro x hx hlt
    rcases List.mem_append.1 hx with hx | hx
    · exact hc.called x hx hlt
    · obtain rfl := List.mem_singleton.1 hx
      exact ⟨e, hc.grown.mem_of_lt he (by rw [hea]; exact hlt), hea, hproc⟩

theorem Going.visit (hc : Sound d proc s c) (hg : Going d proc s c) (hcur : c.cur = some a)
    (h : c.visit a r = some c') : Passing d proc s c' a := by
  obtain ⟨t, ht, rfl⟩ := visit_eq h
  have hold : ∀ {p f}, f ∈ t.list p → f.stamp < s.stamp → f ∈ c.hooks.list p :=
    fun hf hlt => ht.mem_of_lt hf (hlt.trans_le hc.grown.stamp_le)
  refine ⟨fun p hp f hf hlt hproc => ?_, fun f hf hfa hlt hproc => ?_, fun x hx => ?_⟩
  · exact List.mem_append_left _ (hg.above p hp f (hold hf hlt) hlt hproc)
  · rcases hfa with rfl | hfa
    · exact List.mem_append_right _ (List.mem_singleton.2 rfl)
    · refine List.mem_append_left _ (hg.here f (hold hf hlt) ?_ hlt hproc)
      intro b hb
      obtain rfl : a = b := by simpa [hcur] using hb
      exact hfa
  · rcases List.mem_append.1 hx with hx | hx
    · exact (hg.behind x hx).imp_right fun h => ⟨h.1, .inr (h.2 a (by simp [hcur]))⟩
    · obtain rfl := List.mem_singleton.1 hx
      exact .inr ⟨rfl, .inl rfl⟩

/-- A node of another name is passed. -/
theorem Going.pass (hc : Sound d proc s c) (hg : Going d proc s c) (hcur : c.cur = some a)
    (he : e ∈ c.hooks.list c.priority) (hea : e.stamp = a) (hproc : e.hook.proc ≠ proc) :
    Passing d proc s c a := by
  have hlt : ∀ {b}, d.Lt b a → Earlier d b c.cur := fun hb b' hb' => by
    obtain rfl : a = b' := by simpa [hcur] using hb'
    exact hb
  refine ⟨hg.above, fun f hf hfa => ?_, fun x hx => ?_⟩
  · rcases hfa with hfa | hfa
    · intro _ hf'
      obtain rfl := eq_of_stamp_eq (hc.ordered _).1 he hf (hea.trans hfa.symm)
      exact absurd hf' hproc
    · exact hg.here f hf (hlt hfa)
  · exact (hg.behind x hx).imp_right fun h => ⟨h.1, .inr (h.2 a (by simp [hcur]))⟩

/-- The lists of a priority end, and the next priority begins. -/
theorem Going.lower (hc : Sound d proc s c) (hg : Going d proc s c) (hcur : c.cur = none)
    (h0 : c.priority ≠ 0) :
    Going d proc s { c with
      priority := c.priority - 1, cur := first d (c.hooks.list (c.priority - 1)) } := by
  refine ⟨fun p hp e he => ?_, fun e he h => ?_, fun x hx => ?_⟩
  · have hp' : p = c.priority ∨ c.priority < p := by simp only at hp; omega
    rcases hp' with rfl | hp'
    · exact hg.here e he (by simp [Earlier, hcur])
    · exact hg.above p hp' e he
  · exact absurd h (not_earlier_first (hc.ordered _).1 he)
  · refine .inl ?_
    rcases hg.behind x hx with hx | ⟨hx, -⟩
    · simp only
      omega
    · simp only
      omega

theorem Going.complete (hg : Going d proc s c) (hcur : c.cur = none) (h0 : c.priority = 0) :
    Complete proc s c := by
  intro p e he
  by_cases hp : p = 0
  · subst hp
    rw [← h0] at he ⊢
    exact hg.here e he (by simp [Earlier, hcur])
  · exact hg.above p (by rw [h0]; exact Fin.pos_iff_ne_zero.2 hp) e he

/-- The invariant of a call. -/
structure Inv (d : Direction) (proc : CStr) (s : Registry) (c : Call) : Prop where
  sound : Sound d proc s c
  going : c.result = none → Going d proc s c
  complete : c.result = some 0 → Complete proc s c

theorem Passing.inv (hc : Sound d proc s c) (hp : Passing d proc s c a) (hres : c.result = none)
    (h : c.advance d a = some c') : Inv d proc s c' := by
  rw [Call.advance, Option.map_eq_some_iff] at h
  obtain ⟨cur, hcur, rfl⟩ := h
  refine ⟨⟨hc.initial, hc.ordered, hc.grown, hc.sorted, hc.called⟩,
    fun _ => ⟨hp.above, fun e he hlt => ?_, fun x hx => ?_⟩, fun h => by simp [hres] at h⟩
  · exact hp.here e he (of_earlier_behind (hc.ordered _).1 hcur he hlt)
  · have ha := lt_of_behind (hc.ordered _).1 hcur
    refine (hp.behind x hx).imp_right fun h => ⟨h.1, ?_⟩
    rcases h.2 with h | h
    · rw [h]
      exact ha
    · exact fun b hb => h.trans (ha b hb)

theorem Inv.start (hs : Grown .initial s) :
    Inv d proc s (start d s) where
  sound := ⟨hs, Registry.ordered_of_grown hs, .refl s, .nil, by simp [Call.start]⟩
  going _ := by
    refine ⟨fun p hp => ?_, fun e he h => ?_, by simp [Call.start]⟩
    · exact absurd hp (Fin.not_lt.2 (Fin.le_last p))
    · exact absurd h (not_earlier_first (Registry.ordered_of_grown hs _).1 he)
  complete h := by
    intro p e he
    have hnone : s.lists = none := by simpa [Call.start] using h
    simp [Call.start, Registry.list, hnone] at he

theorem Inv.next (hc : Inv d proc s c) (h : c.next d proc r = some c') : Inv d proc s c' := by
  rw [Call.next] at h
  split at h
  · cases h
  rename_i hres
  have hg := hc.going (not_not.1 hres)
  split at h
  case h_1 hcur =>
    split at h
    · cases h
    split at h
    · rename_i h0
      cases h
      exact ⟨⟨hc.sound.initial, hc.sound.ordered, hc.sound.grown, hc.sound.sorted,
        hc.sound.called⟩, by simp, fun _ => hg.complete hcur h0⟩
    · rename_i h0
      cases h
      exact ⟨⟨hc.sound.initial, hc.sound.ordered, hc.sound.grown, hc.sound.sorted,
        hc.sound.called⟩, fun _ => hg.lower hc.sound hcur h0, hc.complete⟩
  case h_2 a hcur =>
    rw [Option.bind_eq_bind, Option.bind_eq_some_iff] at h
    obtain ⟨e, he, h⟩ := h
    have hmem := List.mem_of_find?_eq_some he
    have hea : e.stamp = a := by simpa using List.find?_some he
    split at h
    · rename_i hproc
      rw [Option.bind_eq_bind, Option.bind_eq_some_iff] at h
      obtain ⟨v, hv, h⟩ := h
      have hsound := hc.sound.visit hg hcur hmem hea hproc hv
      split at h
      · cases h
        exact ⟨⟨hsound.initial, hsound.ordered, hsound.grown, hsound.sorted, hsound.called⟩,
          by simp, by simp⟩
      · have hresult : v.result = none := by
          obtain ⟨t, -, rfl⟩ := visit_eq hv
          exact not_not.1 hres
        exact (hg.visit hc.sound hcur hv).inv hsound hresult h
    · rename_i hproc
      split at h
      · cases h
      exact (hg.pass hc.sound hcur hmem hea hproc).inv hc.sound (not_not.1 hres) h

end Steps

end Call

/-- In a call, whatever its handlers register and remove, the handlers run in the order of their
priorities and registration, each at most once; of those that were there at the beginning only the
ones of the name run, and if the call goes through, every one of them that is still there at the end
did. -/
theorem hookCall_run (d : Direction) (ops : List Op) (s : Registry)
    (hs : ops.foldlM Op.exec Registry.initial = some s) (proc : CStr) (rs : List Reaction)
    (c : Call)
    (hc : rs.foldlM (Call.next d proc) (Call.start d s) = some c) :
    c.log.Pairwise (Before d) ∧
    (∀ x ∈ c.log, x.2 < s.stamp → ∃ e ∈ s.list x.1, e.stamp = x.2 ∧ e.hook.proc = proc) ∧
    (c.result = some 0 → ∀ p, ∀ e ∈ s.list p, e ∈ c.hooks.list p → e.hook.proc = proc →
      (p, e.stamp) ∈ c.log) := by
  have hgrown : Grown .initial s := grown_of_run (fun _ _ _ => Op.grown) hs
  have hinv : Call.Inv d proc s c := (Run.of_foldlM hc).invariant
    (fun _ _ _ hu hv => hu.next hv) (.start hgrown)
  refine ⟨hinv.sound.sorted, hinv.sound.called, fun hres p e he he' hproc => ?_⟩
  exact hinv.complete hres p e he' ((Registry.ordered_of_grown hgrown p).2 e he) hproc

/-- The handler of the highest priority removes one below and registers another. -/
theorem hookCall_run_changes : ∃ s c,
    [Op.change (.register ⟨['a'], 1, 0⟩ 62), .change (.register ⟨['a'], 2, 0⟩ 62),
      .change (.register ⟨['a'], 3, 0⟩ 63)].foldlM Op.exec Registry.initial = some s ∧
    (⟨[.unregister ['a'] 2 62, .register ⟨['a'], 4, 0⟩ 62], 0⟩ :: List.replicate 66 .silent).foldlM
      (Call.next .forward ['a']) (.start .forward s) = some c ∧
    c.result = some 0 ∧ c.log = [(63, 2), (62, 0), (62, 3)] ∧ c.log.Pairwise (Before .forward) := by
  refine ⟨_, _, rfl, rfl, rfl, rfl, ?_⟩
  exact (hookCall_run .forward
    [.change (.register ⟨['a'], 1, 0⟩ 62), .change (.register ⟨['a'], 2, 0⟩ 62),
      .change (.register ⟨['a'], 3, 0⟩ 63)] _ rfl ['a']
    (⟨[.unregister ['a'] 2 62, .register ⟨['a'], 4, 0⟩ 62], 0⟩ :: List.replicate 66 .silent) _
    rfl).1

end WebTester.Hooks
