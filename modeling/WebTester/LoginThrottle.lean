import WebTester.CString
import WebTester.Recent
import WebTester.Transition
import Mathlib.Logic.Function.Basic
import Mathlib.Algebra.Order.Group.Int

/-!
# Login attempts

The IPC server keeps the times of the last failed logins from every address, and lets no
one log in from an address with too many of them in too short a time.
-/
namespace WebTester.Login
open CString Recent Transition

/-- `tries_before_lock` and `time_for_count_tries`. Every `access_times` asks for
`tries_before_lock * sizeof (time)` bytes, and `time` is the function, so that this is one byte a
try; `block` is the number of bytes that `malloc` then gives. -/
structure Config where
  tries : ℤ
  window : ℤ
  block : ℕ

/-- `login_info_t` -/
structure LoginInfo where
  accessTimes : ℕ → ℤ
  accessPtr : ℤ

/-- The pool of login information, by address. -/
abbrev Pool := CStr → Option LoginInfo

variable (cfg : Config)

/-- The throttle is switched off. -/
def Config.off : Bool := cfg.tries ≤ 0 || cfg.window < 0

/-- What `strip_unused_login_info` does to an entry at time `t`. -/
def strip (t : ℤ) : Option LoginInfo → Option LoginInfo
  | none => none
  | some info =>
    if 0 < info.accessPtr ∧ cfg.window < t - info.accessTimes info.accessPtr.toNat then none
    else some info

def stripUnusedLoginInfo (t : ℤ) (pool : Pool) : Pool := fun ip => strip cfg t (pool ip)

/-- The comparison of `login_allowed` at time `t`. -/
def locks (t : ℤ) : Option LoginInfo → Bool
  | none => false
  | some info => info.accessPtr = cfg.tries - 1 && t - info.accessTimes 0 ≤ cfg.window

/-- `login_allowed`, which reads the clock once to strip the pool and once to compare. -/
def loginAllowed (t t' : ℤ) (ip : CStr) (pool : Pool) : Pool × Bool :=
  if cfg.off then (pool, true)
  else
    let stripped := stripUnusedLoginInfo cfg t pool
    (stripped, !locks cfg t' (stripped ip))

/-- The size of `time_t`. -/
def timeSize : ℕ := 8

/-- `access_times[i]` lies within its block. -/
def Config.holds (i : ℕ) : Bool := timeSize * (i + 1) ≤ cfg.block

/-- The stamp of `add_login_stamp`. The loop that should move the times has an empty body,
so that one of them is moved after it, the last but one. -/
def stamp (t : ℤ) (info : LoginInfo) : LoginInfo :=
  let info :=
    if info.accessPtr < cfg.tries - 1 then { info with accessPtr := info.accessPtr + 1 }
    else
      let i := (info.accessPtr - 1).toNat
      { info with accessTimes := Function.update info.accessTimes i (info.accessTimes (i + 1)) }
  { info with accessTimes := Function.update info.accessTimes info.accessPtr.toNat t }

/-- The last of the times that `stamp` touches. -/
def lastTime (info : LoginInfo) : ℕ :=
  if info.accessPtr < cfg.tries - 1 then (info.accessPtr + 1).toNat
  else (info.accessPtr - 1).toNat + 1

/-- A new `login_info_t`; the times are not read before they are written. -/
def LoginInfo.fresh : LoginInfo := ⟨fun _ => 0, -1⟩

/-- `add_login_stamp`. There is no result where a time behind the block is touched. -/
def addLoginStamp (t : ℤ) (ip : CStr) (pool : Pool) : Option Pool :=
  if cfg.off then some pool
  else
    let info := (pool ip).getD .fresh
    if cfg.holds (lastTime cfg info) then
      some (Function.update pool ip (some (stamp cfg t info)))
    else none

def unsetLoginStamps (ip : CStr) (pool : Pool) : Pool := Function.update pool ip none

/-! ## Runs -/

/-- An attempt from an address, with the times at which the pool is stripped, at which it is
compared and at which a failure is recorded; or `login_info_review`. -/
inductive Event
  | login (ip : CStr) (authenticated correct : Bool) (t₁ t₂ t₃ : ℤ)
  | review (t : ℤ)

/-- The pool, with the failures recorded since the last success from every address, the most
recent first, and the last time that was read. -/
structure Server where
  pool : Pool
  failures : CStr → List ℤ
  clock : ℤ

def Server.start (clock : ℤ) : Server := ⟨fun _ => none, fun _ => [], clock⟩

/-- `ipc_login` with a name and a password. -/
def ipcLogin (s : Server) (ip : CStr) (authenticated correct : Bool) (t₁ t₂ t₃ : ℤ) :
    Option Server :=
  let (pool, allowed) := loginAllowed cfg t₁ t₂ ip s.pool
  if !allowed then some { s with pool := pool, clock := t₃ }
  else if authenticated then some { s with pool := pool, clock := t₃ }
  else if correct then
    some ⟨unsetLoginStamps ip pool, Function.update s.failures ip [], t₃⟩
  else
    (addLoginStamp cfg t₃ ip pool).map fun pool =>
      ⟨pool, Function.update s.failures ip (t₃ :: s.failures ip), t₃⟩

/-- The clock does not go back. -/
def Timely (s : Server) : Event → Prop
  | .login _ _ _ t₁ t₂ t₃ => s.clock ≤ t₁ ∧ t₁ ≤ t₂ ∧ t₂ ≤ t₃
  | .review t => s.clock ≤ t

instance (s : Server) : ∀ ev, Decidable (Timely s ev)
  | .login .. => inferInstanceAs (Decidable (_ ∧ _ ∧ _))
  | .review _ => inferInstanceAs (Decidable (_ ≤ _))

def next (s : Server) (ev : Event) : Option Server :=
  if Timely s ev then
    match ev with
    | .login ip authenticated correct t₁ t₂ t₃ =>
      ipcLogin cfg s ip authenticated correct t₁ t₂ t₃
    | .review t => some { s with pool := stripUnusedLoginInfo cfg t s.pool, clock := t }
  else none

/-- At least `tries` failures, the last so many of them within the window. -/
def Locked (t : ℤ) (failures : List ℤ) : Prop :=
  ∃ f, failures[cfg.tries.toNat - 1]? = some f ∧ t - f ≤ cfg.window

/-- A failure is recorded within the block, and not over a full record unless there is only one
time to move. -/
def Room (s : Server) : Event → Prop
  | .login ip authenticated correct t₁ t₂ _ =>
    authenticated = false → correct = false → (loginAllowed cfg t₁ t₂ ip s.pool).2 →
      cfg.holds (lastTime cfg (((loginAllowed cfg t₁ t₂ ip s.pool).1 ip).getD .fresh)) ∧
        (cfg.tries ≤ 2 ∨
          ∀ info ∈ (loginAllowed cfg t₁ t₂ ip s.pool).1 ip, info.accessPtr < cfg.tries - 1)
  | .review _ => True

instance (t : ℤ) (failures : List ℤ) : Decidable (Locked cfg t failures) :=
  inferInstanceAs (Decidable (∃ f, _ = some f ∧ _))

instance (s : Server) : ∀ ev, Decidable (Room cfg s ev)
  | .login .. => inferInstanceAs (Decidable (_ → _ → _ → _ ∧ (_ ∨ ∀ _ ∈ _, _)))
  | .review _ => inferInstanceAs (Decidable True)

/-! ## The times of a record -/

/-- The times of a record, the most recent first. -/
def LoginInfo.stamps (info : LoginInfo) : List ℤ :=
  (List.range (info.accessPtr + 1).toNat).map fun j =>
    info.accessTimes (info.accessPtr.toNat - j)

def stampsOf : Option LoginInfo → List ℤ
  | none => []
  | some info => info.stamps

lemma length_stamps (info : LoginInfo) : info.stamps.length = (info.accessPtr + 1).toNat := by
  simp [LoginInfo.stamps]

variable {cfg} {info : LoginInfo} {t : ℤ}

lemma stamps_mk (times : ℕ → ℤ) (k : ℕ) : LoginInfo.stamps ⟨times, (k : ℤ) - 1⟩ =
    (List.range k).map fun j => times (k - 1 - j) := by
  unfold LoginInfo.stamps
  have hk : ((k : ℤ) - 1 + 1).toNat = k := by omega
  have hk' : ((k : ℤ) - 1).toNat = k - 1 := by omega
  rw [hk, hk']

/-- A record with room gets the new time; of at most two times one moves up. -/
lemma stamps_stamp (hT : 1 ≤ cfg.tries) (hlow : -1 ≤ info.accessPtr)
    (hhigh : info.accessPtr ≤ cfg.tries - 1)
    (hroom : cfg.tries ≤ 2 ∨ info.accessPtr < cfg.tries - 1) :
    (stamp cfg t info).stamps = (t :: info.stamps).take cfg.tries.toNat := by
  obtain ⟨times, ptr⟩ := info
  dsimp only at *
  by_cases hlt : ptr < cfg.tries - 1
  · obtain ⟨k, rfl⟩ : ∃ k : ℕ, ptr = k - 1 := ⟨(ptr + 1).toNat, by omega⟩
    have hstamp : stamp cfg t ⟨times, k - 1⟩ =
        ⟨Function.update times k t, ((k + 1 : ℕ) : ℤ) - 1⟩ := by
      simp [stamp, hlt]
    have htake : (t :: LoginInfo.stamps ⟨times, k - 1⟩).length ≤ cfg.tries.toNat := by
      rw [List.length_cons, length_stamps]
      dsimp only
      omega
    rw [hstamp, List.take_of_length_le htake, stamps_mk, stamps_mk, List.range_succ_eq_map,
      List.map_cons, List.map_map, Nat.add_sub_cancel, Nat.sub_zero, Function.update_self]
    congr 1
    refine List.map_congr_left fun j hj => ?_
    rw [List.mem_range] at hj
    have hne : k - (j + 1) ≠ k := by omega
    have hidx : k - (j + 1) = k - 1 - j := by omega
    rw [Function.comp_apply, Nat.succ_eq_add_one, Function.update_of_ne hne, hidx]
  · obtain rfl : ptr = cfg.tries - 1 := by omega
    obtain hone | htwo : cfg.tries = 1 ∨ cfg.tries = 2 := by omega
    · simp [stamp, LoginInfo.stamps, hone]
    · simp [stamp, LoginInfo.stamps, htwo, List.range_succ]

lemma stamps_eq_cons (h : 0 ≤ info.accessPtr) :
    ∃ l, info.stamps = info.accessTimes info.accessPtr.toNat :: l := by
  have hlen : (info.accessPtr + 1).toNat = info.accessPtr.toNat + 1 := by omega
  rw [LoginInfo.stamps, hlen, List.range_succ_eq_map, List.map_cons, Nat.sub_zero]
  exact ⟨_, rfl⟩

lemma accessPtr_stamp (hT : 1 ≤ cfg.tries) (hlow : -1 ≤ info.accessPtr) :
    0 ≤ (stamp cfg t info).accessPtr := by
  unfold stamp
  by_cases hlt : info.accessPtr < cfg.tries - 1
  · simp only [if_pos hlt]
    omega
  · simp only [if_neg hlt]
    omega

/-- The comparison is with the oldest time of a full record. -/
lemma locks_iff (hT : 1 ≤ cfg.tries) (o : Option LoginInfo)
    (hlen : (stampsOf o).length ≤ cfg.tries.toNat) : locks cfg t o ↔
      ∃ f, (stampsOf o)[cfg.tries.toNat - 1]? = some f ∧ t - f ≤ cfg.window := by
  cases o with
  | none => simp [locks, stampsOf]
  | some info =>
    change info.stamps.length ≤ _ at hlen
    rw [length_stamps] at hlen
    simp only [locks, Bool.and_eq_true, decide_eq_true_eq, stampsOf]
    by_cases hfull : info.accessPtr = cfg.tries - 1
    · have hget : info.stamps[cfg.tries.toNat - 1]? = some (info.accessTimes 0) := by
        have hidx : info.accessPtr.toNat - (cfg.tries.toNat - 1) = 0 := by omega
        have hlt : cfg.tries.toNat - 1 < (info.accessPtr + 1).toNat := by omega
        rw [LoginInfo.stamps, List.getElem?_map, List.getElem?_range hlt, Option.map_some, hidx]
      simp [hget, hfull]
    · have hget : info.stamps[cfg.tries.toNat - 1]? = none := by
        rw [List.getElem?_eq_none_iff, length_stamps]
        omega
      simp [hget, hfull]

/-! ## What a record keeps of the failures -/

variable (cfg) in
/-- The record follows the failures, which are listed from the last one back. -/
structure Follows (clock : ℤ) (o : Option LoginInfo) (failures : List ℤ) : Prop where
  ptr : ∀ info ∈ o, 0 ≤ info.accessPtr
  tracks : Tracks cfg.tries.toNat (fun f => cfg.window < clock - f) (stampsOf o) failures
  sorted : failures.Pairwise (· ≥ ·)
  past : ∀ f ∈ failures, f ≤ clock

namespace Follows

variable {clock : ℤ} {o : Option LoginInfo} {failures : List ℤ}

theorem empty (clock : ℤ) : Follows cfg clock none [] :=
  ⟨by simp, .nil (by simp), .nil, by simp⟩

theorem later (h : Follows cfg clock o failures) (ht : clock ≤ t) : Follows cfg t o failures where
  ptr := h.ptr
  tracks := h.tracks.mono fun f hf => by omega
  sorted := h.sorted
  past := fun f hf => (h.past f hf).trans ht

/-- A record is dropped when its last time, and with it every other, is too old. -/
theorem strip (h : Follows cfg t o failures) : Follows cfg t (strip cfg t o) failures := by
  cases o with
  | none => exact h
  | some info =>
    rw [Login.strip]
    by_cases hold : 0 < info.accessPtr ∧
        cfg.window < t - info.accessTimes info.accessPtr.toNat
    · rw [if_pos hold]
      obtain ⟨l, hl⟩ := stamps_eq_cons hold.1.le
      obtain ⟨rest, hrest, -⟩ := h.tracks
      rw [stampsOf, hl, List.cons_append] at hrest
      refine ⟨by simp, .nil fun f hf => ?_, h.sorted, h.past⟩
      have hsorted := h.sorted
      rw [hrest] at hf hsorted
      have hle : f ≤ info.accessTimes info.accessPtr.toNat := by
        rcases List.mem_cons.1 hf with rfl | hf
        · exact le_rfl
        · exact (List.pairwise_cons.1 hsorted).1 f hf
      omega
    · rw [if_neg hold]
      exact h

theorem stamp (h : Follows cfg clock o failures) (hT : 1 ≤ cfg.tries) (ht : clock ≤ t)
    (hroom : cfg.tries ≤ 2 ∨ ∀ info ∈ o, info.accessPtr < cfg.tries - 1) :
    Follows cfg t (some (stamp cfg t (o.getD .fresh))) (t :: failures) := by
  have hstamps : (o.getD .fresh).stamps = stampsOf o := by
    cases o <;> rfl
  have hlow : -1 ≤ (o.getD .fresh).accessPtr := by
    cases o with
    | none => exact le_rfl
    | some info => exact le_trans (by decide) (h.ptr info rfl)
  have hhigh : (o.getD .fresh).accessPtr ≤ cfg.tries - 1 := by
    have hle := h.tracks.length_le
    rw [← hstamps, length_stamps] at hle
    omega
  have hroom' : cfg.tries ≤ 2 ∨ (o.getD .fresh).accessPtr < cfg.tries - 1 := by
    cases o with
    | none => exact .inr (show -1 < cfg.tries - 1 by omega)
    | some info => exact hroom.imp_right fun h => h info rfl
  have hlater := h.later ht
  refine ⟨?_, ?_, ?_, ?_⟩
  · rintro info ⟨rfl⟩
    exact accessPtr_stamp hT hlow
  · rw [stampsOf, stamps_stamp hT hlow hhigh hroom', hstamps]
    exact hlater.tracks.push t
  · exact List.pairwise_cons.2 ⟨hlater.past, hlater.sorted⟩
  · exact List.forall_mem_cons.2 ⟨le_rfl, hlater.past⟩

theorem locks_iff (h : Follows cfg clock o failures) (hT : 1 ≤ cfg.tries) (ht : clock ≤ t) :
    locks cfg t o ↔ Locked cfg t failures := by
  rw [Login.locks_iff hT o h.tracks.length_le]
  exact h.tracks.getElem?_iff (by omega) fun f hf => by omega

end Follows

/-! ## Every run -/

variable (cfg) in
def Inv (s : Server) : Prop := ∀ ip, Follows cfg s.clock (s.pool ip) (s.failures ip)

lemma inv_start (clock : ℤ) : Inv cfg (.start clock) := fun _ => .empty clock

lemma off_eq_false (hT : 1 ≤ cfg.tries) (hW : 0 ≤ cfg.window) : cfg.off = false := by
  simp only [Config.off, Bool.or_eq_false_iff, decide_eq_false_iff_not]
  omega

lemma loginAllowed_eq (hT : 1 ≤ cfg.tries) (hW : 0 ≤ cfg.window) (t t' : ℤ) (ip : CStr)
    (pool : Pool) : loginAllowed cfg t t' ip pool =
      (stripUnusedLoginInfo cfg t pool, !locks cfg t' (strip cfg t (pool ip))) := by
  rw [loginAllowed, off_eq_false hT hW]
  rfl

lemma addLoginStamp_eq (hT : 1 ≤ cfg.tries) (hW : 0 ≤ cfg.window) (t : ℤ) {ip : CStr}
    {pool : Pool} (hholds : cfg.holds (lastTime cfg ((pool ip).getD .fresh)) = true) :
    addLoginStamp cfg t ip pool =
      some (Function.update pool ip (some (stamp cfg t ((pool ip).getD .fresh)))) := by
  rw [addLoginStamp, off_eq_false hT hW]
  exact if_pos hholds

/-- An update of one address keeps the others. -/
lemma follows_update {pool : Pool} {failures : CStr → List ℤ} {ip : CStr}
    {o : Option LoginInfo} {l : List ℤ} (h : ∀ ip', Follows cfg t (pool ip') (failures ip'))
    (hip : Follows cfg t o l) (ip' : CStr) :
    Follows cfg t (Function.update pool ip o ip') (Function.update failures ip l ip') := by
  by_cases hne : ip' = ip
  · subst hne
    rw [Function.update_self, Function.update_self]
    exact hip
  · rw [Function.update_of_ne hne, Function.update_of_ne hne]
    exact h ip'

/-- What is done in a step that has room. -/
lemma next_spec (hT : 1 ≤ cfg.tries) (hW : 0 ≤ cfg.window) {s : Server} {ev : Event}
    (hs : Inv cfg s) (htimely : Timely s ev) (hroom : Room cfg s ev) :
    ∃ s', next cfg s ev = some s' ∧ Inv cfg s' := by
  rw [next.eq_def, if_pos htimely]
  cases ev with
  | review t => exact ⟨_, rfl, fun ip => ((hs ip).later htimely).strip⟩
  | login ip authenticated correct t₁ t₂ t₃ =>
    obtain ⟨h₁, h₂, h₃⟩ := htimely
    have hstrip : ∀ ip, Follows cfg t₁ (strip cfg t₁ (s.pool ip)) (s.failures ip) :=
      fun ip => ((hs ip).later h₁).strip
    have hlater : ∀ ip, Follows cfg t₃ (strip cfg t₁ (s.pool ip)) (s.failures ip) :=
      fun ip => (hstrip ip).later (h₂.trans h₃)
    show ∃ s', ipcLogin cfg s ip authenticated correct t₁ t₂ t₃ = some s' ∧ _
    rw [Room, loginAllowed_eq hT hW] at hroom
    rw [ipcLogin, loginAllowed_eq hT hW]
    dsimp only at hroom ⊢
    split_ifs with hlocks hauth hcorrect
    · exact ⟨_, rfl, hlater⟩
    · exact ⟨_, rfl, hlater⟩
    · exact ⟨_, rfl, follows_update hlater (.empty t₃)⟩
    · obtain ⟨hholds, hfull⟩ :=
        hroom (by simpa using hauth) (by simpa using hcorrect) (by simpa using hlocks)
      rw [addLoginStamp_eq hT hW t₃ hholds]
      exact ⟨_, rfl, follows_update hlater ((hstrip ip).stamp hT (h₂.trans h₃) hfull)⟩

lemma inv_next (hT : 1 ≤ cfg.tries) (hW : 0 ≤ cfg.window) (s : Server) (ev : Event) (s' : Server)
    (hs : Inv cfg s) (h : Guarded (Room cfg) (StepOf (next cfg)) s ev s') : Inv cfg s' := by
  obtain ⟨hroom, hnext⟩ := h
  have htimely : Timely s ev := by
    by_contra hnot
    rw [StepOf, next.eq_def, if_neg hnot] at hnext
    cases hnext
  obtain ⟨t, ht, hinv⟩ := next_spec hT hW hs htimely hroom
  rw [StepOf, ht] at hnext
  cases hnext
  exact hinv

/-- In every run that records each failure within the block and none over a full record of more
than two times, a login is refused exactly when the last `tries` failures are within the window,
and the run goes on with every event that does so too. -/
theorem loginAllowed_false_iff_locked (hT : 1 ≤ cfg.tries) (hW : 0 ≤ cfg.window) {clock : ℤ}
    {es : List Event} {s : Server}
    (hr : Run (Guarded (Room cfg) (StepOf (next cfg))) (.start clock) es s) :
    (∀ (ip : CStr) (t t' : ℤ), s.clock ≤ t → t ≤ t' →
      ((loginAllowed cfg t t' ip s.pool).2 = false ↔ Locked cfg t' (s.failures ip))) ∧
      ∀ ev, Timely s ev → Room cfg s ev → (next cfg s ev).isSome := by
  have hs : Inv cfg s := hr.invariant (inv_next hT hW) (inv_start clock)
  refine ⟨fun ip t t' ht ht' => ?_, fun ev htimely hroom => ?_⟩
  · rw [loginAllowed_eq hT hW]
    rw [← ((hs ip).later ht).strip.locks_iff hT ht']
    simp
  · obtain ⟨s', hs', -⟩ := next_spec hT hW hs htimely hroom
    rw [hs']
    rfl

/-- A wrong password at a time. -/
def failAt (t : ℤ) : Event := .login "::1".toList false false t t t

/-- The smallest block of the C library has 24 bytes. -/
def threeTries : Config := ⟨3, 10, 24⟩

def threeFailures : List Event := [failAt 0, failAt 9, failAt 10]

lemma threeFailures_isSome :
    (threeFailures.foldlM (restrict (Room threeTries) (next threeTries)) (.start 0)).isSome := by
  decide +kernel

theorem loginAllowed_false_iff_locked_three : Locked threeTries 10
    (((threeFailures.foldlM (restrict (Room threeTries) (next threeTries)) (.start 0)).get
      threeFailures_isSome).failures "::1".toList) := by
  have hr := (Run.get_foldlM _ _ threeFailures_isSome).mono fun _ _ _ h => stepOf_restrict.1 h
  obtain ⟨hiff, -⟩ := loginAllowed_false_iff_locked (by decide) (by decide) hr
  exact (hiff _ 10 10 (by decide +kernel) le_rfl).1 (by decide +kernel)

/-- With five tries the fourth failure is written behind a block of 24 bytes. -/
example : ([failAt 0, failAt 1, failAt 2].foldlM (next ⟨5, 10, 24⟩) (.start 0)).isSome ∧
    ([failAt 0, failAt 1, failAt 2, failAt 3].foldlM (next ⟨5, 10, 24⟩) (.start 0)).isNone := by
  decide +kernel

/-- The first failure is never forgotten, so that a fourth one is not counted. -/
def fourFailures : List Event := threeFailures ++ [failAt 11]

lemma fourFailures_isSome :
    (fourFailures.foldlM (next threeTries) (.start 0)).isSome := by
  decide +kernel

theorem loginAllowed_not_locked : ¬∀ (es : List Event) (s : Server) (ip : CStr) (t t' : ℤ),
    Run (StepOf (next threeTries)) (.start 0) es s → s.clock ≤ t → t ≤ t' →
      ((loginAllowed threeTries t t' ip s.pool).2 = false ↔
        Locked threeTries t' (s.failures ip)) := by
  intro h
  have hiff := h _ _ "::1".toList 11 11 (Run.get_foldlM _ _ fourFailures_isSome)
    (by decide +kernel) le_rfl
  exact absurd (hiff.2 (by decide +kernel)) (by decide +kernel)

end WebTester.Login
