import WebTester.Transition
import Mathlib.Data.List.TakeWhile
import Mathlib.Data.List.Induction

/-!
# The life cycle of a plugin

`plugin_activate` and `plugin_deactivate` look at the field `activated` of a plugin before they
call its callback. The field is zero in a new plugin, and nothing assigns it. A plugin is freed
when it is unloaded; a call for it has no result after that, apart from another
`plugin_unload`, which does not find it. What a callback returns is part of the call that
invokes it.
-/
namespace WebTester.Plugins
open Transition

inductive Callback
  | activate
  | deactivate
  deriving DecidableEq, Repr

/-- What happens to a plugin: a callback is invoked, a call returns, the plugin is unloaded. -/
inductive Event
  | invoked (callback : Callback)
  | returned (call : Callback) (code : ℤ)
  | unloaded
  deriving DecidableEq, Repr

/-- A plugin that provides both callbacks. -/
structure Plugin where
  activated : Bool
  /-- It is in the pool and not freed. -/
  loaded : Bool
  trace : List Event
  deriving DecidableEq, Repr

namespace Plugin

def start : Plugin := ⟨false, true, []⟩

def log (p : Plugin) (e : Event) : Plugin := { p with trace := p.trace ++ [e] }

/-- `plugin_activate`. -/
def pluginActivate (p : Plugin) (code : ℤ) : ℤ × Plugin :=
  if p.activated then (0, p) else (code, p.log (.invoked .activate))

/-- `plugin_deactivate`. -/
def pluginDeactivate (p : Plugin) (code : ℤ) : ℤ × Plugin :=
  if !p.activated then (0, p) else (code, p.log (.invoked .deactivate))

/-- `plugin_dyna_deleter`; what the deactivation returns is dropped. -/
def pluginDynaDeleter (p : Plugin) (code : ℤ) : Plugin :=
  { (p.pluginDeactivate code).2.log .unloaded with loaded := false }

end Plugin

/-- A call with what the callback returns if it is invoked. -/
inductive Call
  | activate (code : ℤ)
  | deactivate (code : ℤ)
  | unload
  deriving DecidableEq, Repr

def step (p : Plugin) : Call → Option Plugin
  | .activate code =>
    if p.loaded then
      let r := p.pluginActivate code
      some (r.2.log (.returned .activate r.1))
    else none
  | .deactivate code =>
    if p.loaded then
      let r := p.pluginDeactivate code
      some (r.2.log (.returned .deactivate r.1))
    else none
  | .unload => some (if p.loaded then p.pluginDynaDeleter 0 else p)

/-- A sequence of calls for a plugin that was just loaded. -/
def run (calls : List Call) : Option Plugin := calls.foldlM step .start

/-! ## What is expected -/

namespace Event

def callback : Event → Option Callback
  | invoked c => some c
  | _ => none

/-- A call that returned zero. -/
def Succeeded (e : Event) : Prop := ∃ c, e = returned c 0

end Event

/-- One after the other, the given one first. -/
def Alternate : Callback → List Callback → Prop
  | _, [] => True
  | .activate, c :: cs => c = .activate ∧ Alternate .deactivate cs
  | .deactivate, c :: cs => c = .deactivate ∧ Alternate .activate cs

/-- The callbacks alternate from an activation on, and a plugin is not unloaded after an
activation that was the last call to succeed, unless it was deactivated since. -/
structure Right (trace : List Event) : Prop where
  alternate : Alternate .activate (trace.filterMap Event.callback)
  deactivated : ∀ pre mid post, trace = pre ++ .returned .activate 0 :: mid ++ .unloaded :: post →
    (∀ e ∈ mid, ¬e.Succeeded) → .invoked .deactivate ∈ mid

namespace Call

def isActivate : Call → Bool
  | activate _ => true
  | _ => false

/-- The calls that return zero: a deactivation never invokes the callback. -/
def Succeeds : Call → Prop
  | activate code => code = 0
  | deactivate _ => True
  | unload => False

/-- What a call does to a plugin that is loaded. -/
def events : Call → List Event
  | activate code => [.invoked .activate, .returned .activate code]
  | deactivate _ => [.returned .deactivate 0]
  | unload => [.unloaded]

end Call

/-- The calls before the plugin is unloaded. -/
def loadedCalls (calls : List Call) : List Call := calls.takeWhile (· ≠ .unload)

/-! ## The trace of a run -/

/-- What is true after calls: the flag is not set, and the trace is told by the calls. -/
structure Follows (calls : List Call) (p : Plugin) : Prop where
  activated : p.activated = false
  loaded : p.loaded = true ↔ .unload ∉ calls
  trace : p.trace = (loadedCalls calls).flatMap Call.events ++
    if .unload ∈ calls then [.unloaded] else []

variable {calls pre post : List Call} {p q : Plugin} {c : Call}

lemma loadedCalls_of_notMem (h : .unload ∉ calls) : loadedCalls calls = calls := by
  rw [loadedCalls, List.takeWhile_eq_self_iff]
  intro c hc
  simpa using ne_of_mem_of_not_mem hc h

lemma loadedCalls_append (h : .unload ∉ calls) :
    loadedCalls (calls ++ .unload :: post) = calls := by
  rw [loadedCalls, List.takeWhile_append_of_pos]
  · simp
  · intro c hc
    simpa using ne_of_mem_of_not_mem hc h

/-- Calls for a plugin that was unloaded leave the calls before that. -/
lemma loadedCalls_concat (h : .unload ∈ calls) (c : Call) :
    loadedCalls (calls ++ [c]) = loadedCalls calls := by
  obtain ⟨pre, post, rfl, hpre⟩ := List.eq_append_cons_of_mem h
  rw [List.append_assoc, List.cons_append, loadedCalls_append hpre, loadedCalls_append hpre]

/-- A call for a plugin with the flag not set. -/
lemma step_loaded (hl : p.loaded = true) (ha : p.activated = false) (c : Call) :
    step p c = some ⟨false, decide (c ≠ .unload), p.trace ++ c.events⟩ := by
  obtain ⟨activated, loaded, trace⟩ := p
  cases ha
  cases hl
  cases c <;>
    simp [step, Plugin.pluginActivate, Plugin.pluginDeactivate, Plugin.pluginDynaDeleter,
      Plugin.log, Call.events]

/-- A call for a plugin that was unloaded. -/
lemma step_unloaded (hl : ¬p.loaded = true) (h : step p c = some q) : c = .unload ∧ q = p := by
  cases c with
  | activate code =>
    rw [step, if_neg hl] at h
    cases h
  | deactivate code =>
    rw [step, if_neg hl] at h
    cases h
  | unload =>
    rw [step, if_neg hl] at h
    cases h
    exact ⟨rfl, rfl⟩

lemma Follows.step (h : Follows calls p) (hstep : step p c = some q) :
    Follows (calls ++ [c]) q := by
  by_cases hl : p.loaded = true
  · have hmem := h.loaded.1 hl
    have htrace := h.trace
    rw [loadedCalls_of_notMem hmem, if_neg hmem, List.append_nil] at htrace
    rw [step_loaded hl h.activated] at hstep
    cases hstep
    by_cases hc : c = .unload
    · subst hc
      refine ⟨rfl, by simp, ?_⟩
      rw [loadedCalls_append hmem, if_pos (by simp), htrace]
      rfl
    · have hmem' : .unload ∉ calls ++ [c] := by
        rw [List.mem_append, List.mem_singleton, not_or]
        exact ⟨hmem, Ne.symm hc⟩
      refine ⟨rfl, by simp [hc, hmem, Ne.symm hc], ?_⟩
      rw [loadedCalls_of_notMem hmem', if_neg hmem', htrace, List.flatMap_append, List.append_nil]
      simp
  · have hmem : .unload ∈ calls := by
      by_contra hmem
      exact hl (h.loaded.2 hmem)
    obtain ⟨rfl, rfl⟩ := step_unloaded hl hstep
    refine ⟨h.activated, by simp [hl], ?_⟩
    rw [loadedCalls_concat hmem, h.trace, if_pos hmem, if_pos (List.mem_append_left _ hmem)]

lemma run_follows (hr : run calls = some p) : Follows calls p := by
  induction calls using List.reverseRecOn generalizing p with
  | nil =>
    cases hr
    exact ⟨rfl, by simp [Plugin.start], rfl⟩
  | append_singleton calls c ih =>
    rw [run, foldlM_concat, Option.bind_eq_some_iff] at hr
    obtain ⟨q, hq, hstep⟩ := hr
    exact (ih hq).step hstep

/-! ## Activations -/

/-- The callbacks are those of the activations. -/
lemma callbacks_events (calls : List Call) :
    (calls.flatMap Call.events).filterMap Event.callback =
      List.replicate (calls.countP Call.isActivate) .activate := by
  induction calls with
  | nil => rfl
  | cons c calls ih =>
    rw [List.flatMap_cons, List.filterMap_append, ih, List.countP_cons]
    cases c <;> rfl

/-- Activations alone do not alternate. -/
lemma alternate_replicate (n : ℕ) :
    Alternate .activate (List.replicate n .activate) ↔ n ≤ 1 := by
  match n with
  | 0 => simp [Alternate]
  | 1 => simp [Alternate]
  | n + 2 => simp [List.replicate_succ, Alternate]

/-- A call succeeds if and only if it returns zero. -/
lemma succeeds_iff (c : Call) : c.Succeeds ↔ ∃ e ∈ c.events, e.Succeeded := by
  cases c with
  | activate code => simp [Call.Succeeds, Call.events, Event.Succeeded]
  | deactivate code => simp [Call.Succeeds, Call.events, Event.Succeeded]
  | unload => simp [Call.Succeeds, Call.events, Event.Succeeded]

lemma notMem_deactivate (calls : List Call) :
    .invoked .deactivate ∉ calls.flatMap Call.events := by
  rw [List.mem_flatMap]
  rintro ⟨c, -, hc⟩
  cases c <;> simp [Call.events] at hc

lemma notMem_unloaded (calls : List Call) :
    .unloaded ∉ (loadedCalls calls).flatMap Call.events := by
  rw [List.mem_flatMap]
  rintro ⟨c, hmem, hc⟩
  have hne := List.mem_takeWhile_imp hmem
  cases c <;> simp [Call.events] at hc hne

lemma eq_activate {a b : List Event} (h : c.events = a ++ .returned .activate 0 :: b) :
    c = .activate 0 ∧ b = [] := by
  cases c with
  | activate code =>
    rcases a with - | ⟨e, - | ⟨e', a⟩⟩
    · simp [Call.events] at h
    · simp only [Call.events, List.cons_append, List.nil_append, List.cons_eq_cons,
        Event.returned.injEq, true_and] at h
      obtain ⟨-, rfl, rfl⟩ := h
      exact ⟨rfl, rfl⟩
    · simp [Call.events] at h
  | deactivate code =>
    rcases a with - | ⟨e, a⟩ <;> simp [Call.events] at h
  | unload =>
    rcases a with - | ⟨e, a⟩ <;> simp [Call.events] at h

/-- An activation that succeeds comes from a call. -/
lemma exists_activate {a b : List Event}
    (h : calls.flatMap Call.events = a ++ .returned .activate 0 :: b) :
    ∃ pre post, calls = pre ++ .activate 0 :: post ∧ b = post.flatMap Call.events := by
  induction calls generalizing a with
  | nil => simp at h
  | cons c calls ih =>
    -- the event is one of the call, or of a later one
    rw [List.flatMap_cons, List.append_eq_append_iff] at h
    obtain ⟨a', rfl, hrest⟩ | ⟨b', hevents, hrest⟩ := h
    · obtain ⟨pre, post, rfl, rfl⟩ := ih hrest
      exact ⟨c :: pre, post, rfl, rfl⟩
    · cases b' with
      | nil =>
        obtain ⟨pre, post, rfl, rfl⟩ := ih (a := []) hrest.symm
        exact ⟨c :: pre, post, rfl, rfl⟩
      | cons e b' =>
        obtain ⟨rfl, rfl⟩ := List.cons_eq_cons.1 hrest
        obtain ⟨rfl, rfl⟩ := eq_activate hevents
        exact ⟨[], calls, rfl, rfl⟩

/-- The trace ends where the plugin is unloaded. -/
lemma eq_of_unloaded {a pre post : List Event} (ha : .unloaded ∉ a)
    (h : a ++ [.unloaded] = pre ++ .unloaded :: post) : a = pre := by
  rcases List.eq_nil_or_concat' post with rfl | ⟨post, e, rfl⟩
  · exact (List.append_inj' h rfl).1
  · rw [← List.cons_append, ← List.append_assoc] at h
    have heq := (List.append_inj' h rfl).1
    exact absurd (heq ▸ List.mem_append_right pre List.mem_cons_self) ha

/-- Callbacks alternate, and a plugin that is active is deactivated before it is unloaded, if
and only if there is at most one activation, and where it succeeds and the plugin is unloaded
another call succeeds after it. -/
theorem lifeCycle_iff {calls : List Call} {p : Plugin} (hr : run calls = some p) :
    Right p.trace ↔ (loadedCalls calls).countP Call.isActivate ≤ 1 ∧
      (.unload ∈ calls → ∀ pre post, loadedCalls calls = pre ++ .activate 0 :: post →
        ∃ c ∈ post, c.Succeeds) := by
  have htrace := (run_follows hr).trace
  have hcallbacks : p.trace.filterMap Event.callback =
      List.replicate ((loadedCalls calls).countP Call.isActivate) .activate := by
    rw [htrace, List.filterMap_append, callbacks_events]
    split <;> simp [Event.callback]
  constructor
  · intro h
    refine ⟨?_, fun hunload pre post hcalls => ?_⟩
    · rw [← alternate_replicate, ← hcallbacks]
      exact h.alternate
    · rw [if_pos hunload, hcalls] at htrace
      by_contra hnone
      push Not at hnone
      have hmem := h.deactivated (pre.flatMap Call.events ++ [.invoked .activate])
        (post.flatMap Call.events) [] (by rw [htrace]; simp [Call.events]) ?_
      · exact notMem_deactivate post hmem
      · intro e he hsucc
        obtain ⟨c, hc, hec⟩ := List.mem_flatMap.1 he
        exact hnone c hc ((succeeds_iff c).2 ⟨e, hec, hsucc⟩)
  · rintro ⟨hcount, hunload⟩
    refine ⟨?_, fun pre mid post heq hmid => ?_⟩
    · rw [hcallbacks]
      exact (alternate_replicate _).2 hcount
    · by_cases hmem : .unload ∈ calls
      · rw [htrace, if_pos hmem] at heq
        have hevents := eq_of_unloaded (notMem_unloaded calls) heq
        obtain ⟨before, after, hcalls, rfl⟩ := exists_activate hevents
        obtain ⟨c, hc, hsucc⟩ := hunload hmem before after hcalls
        obtain ⟨e, he, hsucc⟩ := (succeeds_iff c).1 hsucc
        exact absurd hsucc (hmid e (List.mem_flatMap.2 ⟨c, hc, he⟩))
      · rw [htrace, if_neg hmem, List.append_nil] at heq
        exact absurd (heq ▸ List.mem_append_right _ List.mem_cons_self) (notMem_unloaded calls)

/-- A plugin is activated, deactivated and unloaded. -/
theorem right_once : ∃ p, run [.activate 0, .deactivate 0, .unload] = some p ∧ Right p.trace := by
  have hr : run [.activate 0, .deactivate 0, .unload] = some ⟨false, false,
      [.invoked .activate, .returned .activate 0, .returned .deactivate 0, .unloaded]⟩ := rfl
  refine ⟨_, hr, (lifeCycle_iff hr).2 ⟨by decide, fun _ pre post heq => ?_⟩⟩
  replace heq : [.activate 0, .deactivate 0] = pre ++ .activate 0 :: post := heq
  rcases pre with - | ⟨c, - | ⟨c', pre⟩⟩
  · cases heq
    exact ⟨_, List.mem_cons_self, trivial⟩
  · cases heq
  · simp at heq

/-- The callback is invoked by a second activation, and not before a plugin is unloaded that is
active. -/
theorem not_right :
    (∃ p, run [.activate 0, .activate 0] = some p ∧ ¬Right p.trace) ∧
      ∃ p, run [.activate 0, .unload] = some p ∧ ¬Right p.trace := by
  refine ⟨⟨_, rfl, fun h => ?_⟩, _, rfl, fun h => ?_⟩
  · obtain ⟨-, halternate, -⟩ := h.alternate
    cases halternate
  · have hmem := h.deactivated [.invoked .activate] [] [] rfl (by simp)
    cases hmem

end WebTester.Plugins
