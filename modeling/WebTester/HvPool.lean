import WebTester.CString
import WebTester.Process
import WebTester.Transition

/-!
# The accounting pool of the hypervisor

The statistics of ended tasks are kept in a list of arrays of a fixed size. `run_hvpool_put` first
drops arrays from the head, then adds the new record to the last array or to a new one. Every call
holds the mutex of the pool. `time (0)` is a `long` and is cut to an `int` where it is stored.
-/
namespace WebTester.Librun.HvPool
open CString Transition

/-- `struct taskstats`: the process and what is read of its accounting. -/
structure Taskstats where
  acPid : BitVec 32
  stats : Stats
  deriving DecidableEq, Repr

/-- `run_hvpool_item_t`. -/
structure Item where
  timestamp : ℤ
  t : Taskstats
  deriving DecidableEq, Repr

/-- `run_hvpool_arr_t`; the cells up to `count` are in `data`. -/
structure Arr where
  size : ℤ
  data : List Item
  deriving DecidableEq, Repr

def Arr.count (arr : Arr) : ℤ := arr.data.length

/-- The settings as `read_config` leaves them. -/
structure Config where
  arrSize : ℤ
  lifetime : ℤ
  arrSize_pos : 1 ≤ arrSize
  lifetime_pos : 1 ≤ lifetime

/-- A call of `run_hvpool_put`, with its two readings of the clock. -/
structure Put where
  overview : ℤ
  stamp : ℤ
  t : Taskstats
  deriving DecidableEq, Repr

/-- `spawn_new_item`. -/
def Put.item (e : Put) : Item := ⟨toInt e.stamp, e.t⟩

/-- `spawn_new_array`. -/
def spawnNewArray (cfg : Config) : Arr := ⟨cfg.arrSize, []⟩

/-- The loop of `pool_overview`, from the head of the pool. -/
def overviewFrom (timestamp : ℤ) : List Arr → List Arr
  | [] => []
  | arr :: pool =>
    if arr.count < arr.size then arr :: pool
    else if arr.data.any fun i => timestamp < i.timestamp then arr :: pool
    else overviewFrom timestamp pool

/-- `pool_overview`. -/
def poolOverview (cfg : Config) (now : ℤ) (pool : List Arr) : List Arr :=
  overviewFrom (toInt (now - cfg.lifetime)) pool

/-- The second half of `run_hvpool_put`. -/
def append (cfg : Config) (item : Item) (pool : List Arr) : List Arr :=
  match pool.getLast? with
  | none => pool ++ [{ spawnNewArray cfg with data := [item] }]
  | some tail =>
    if tail.count < tail.size then pool.dropLast ++ [{ tail with data := tail.data ++ [item] }]
    else pool ++ [{ spawnNewArray cfg with data := [item] }]

/-- `run_hvpool_put`. -/
def put (cfg : Config) (pool : List Arr) (e : Put) : Option (List Arr) :=
  some (append cfg e.item (poolOverview cfg e.overview pool))

/-- `run_hvpool_stats_by_pid_iter`. -/
def statsByPidIter (pid : BitVec 32) : List Arr → Option Taskstats
  | [] => none
  | arr :: pool =>
    match arr.data.find? fun i => i.t.acPid = pid with
    | some i => some i.t
    | none => statsByPidIter pid pool

/-- The records of the pool in list order. -/
def records (pool : List Arr) : List Item := pool.flatMap Arr.data

@[simp] lemma records_nil : records [] = [] := rfl

@[simp] lemma records_cons (arr : Arr) (pool : List Arr) :
    records (arr :: pool) = arr.data ++ records pool := rfl

@[simp] lemma records_append (pool pool' : List Arr) :
    records (pool ++ pool') = records pool ++ records pool' :=
  List.flatMap_append

/-! ## The clock in an `int` -/

/-- The window of the clock in which its value is stored without a further offset. -/
def window (x : ℤ) : ℤ := (x + 2 ^ 31) / 2 ^ 32

lemma toInt_eq (x : ℤ) : toInt x = x - 2 ^ 32 * window x := by
  rw [toInt_eq_emod, window]
  split <;> omega

/-- Stored values are compared as the clock values are, unless the smaller one is of a later
window. -/
lemma le_of_toInt_le {x y : ℤ} (hw : window x ≤ window y) (h : toInt x ≤ toInt y) : x ≤ y := by
  rw [toInt_eq, toInt_eq] at h
  omega

/-! ## Dropping and adding -/

/-- What is dropped is a list of arrays from the head, none of whose records is newer than the
time stamp. -/
lemma overviewFrom_spec (timestamp : ℤ) (pool : List Arr) :
    ∃ dropped, pool = dropped ++ overviewFrom timestamp pool ∧
      ∀ i ∈ records dropped, i.timestamp ≤ timestamp := by
  induction pool with
  | nil => exact ⟨[], rfl, by simp⟩
  | cons arr pool ih =>
    rw [overviewFrom]
    split_ifs with hcount hnew
    · exact ⟨[], rfl, by simp⟩
    · exact ⟨[], rfl, by simp⟩
    · obtain ⟨dropped, hpool, hold⟩ := ih
      refine ⟨arr :: dropped, congrArg (arr :: ·) hpool, fun i hi => ?_⟩
      rw [records_cons, List.mem_append] at hi
      rcases hi with hi | hi
      · have hall : ∀ i ∈ arr.data, i.timestamp ≤ timestamp := by simpa using hnew
        exact hall i hi
      · exact hold i hi

/-- Every array but the last is full, and none is empty. -/
structure WellFormed (cfg : Config) (pool : List Arr) : Prop where
  size : ∀ arr ∈ pool, arr.size = cfg.arrSize
  count_pos : ∀ arr ∈ pool, 1 ≤ arr.count
  count_le : ∀ arr ∈ pool, arr.count ≤ arr.size
  full : ∀ arr ∈ pool.dropLast, arr.count = arr.size

namespace WellFormed

variable {cfg : Config} {pool dropped : List Arr}

lemma nil : WellFormed cfg [] := by
  constructor <;> simp

lemma suffix (h : WellFormed cfg (dropped ++ pool)) : WellFormed cfg pool := by
  have hmem : ∀ arr ∈ pool, arr ∈ dropped ++ pool := fun arr => List.mem_append_right dropped
  refine ⟨fun arr ha => h.size arr (hmem arr ha), fun arr ha => h.count_pos arr (hmem arr ha),
    fun arr ha => h.count_le arr (hmem arr ha), fun arr ha => h.full arr ?_⟩
  rw [List.dropLast_append]
  split
  · next hempty =>
    rw [List.isEmpty_iff.1 hempty] at ha
    simp at ha
  · exact List.mem_append_right dropped ha

lemma concat_iff {front : List Arr} {tail : Arr} : WellFormed cfg (front ++ [tail]) ↔
    (∀ arr ∈ front, arr.size = cfg.arrSize ∧ arr.count = arr.size) ∧
      tail.size = cfg.arrSize ∧ 1 ≤ tail.count ∧ tail.count ≤ tail.size := by
  have hlast : tail ∈ front ++ [tail] := List.mem_append_right front (List.mem_singleton_self tail)
  constructor
  · intro h
    have hfull : ∀ arr ∈ front, arr.count = arr.size := by simpa using h.full
    refine ⟨fun arr ha => ⟨h.size arr (List.mem_append_left [tail] ha), hfull arr ha⟩,
      h.size tail hlast, h.count_pos tail hlast, h.count_le tail hlast⟩
  · rintro ⟨hfront, hsize, hpos, hle⟩
    have hcfg := cfg.arrSize_pos
    have hcases : ∀ arr ∈ front ++ [tail], arr ∈ front ∨ arr = tail := by simp
    refine ⟨fun arr ha => ?_, fun arr ha => ?_, fun arr ha => ?_, fun arr ha => ?_⟩
    · rcases hcases arr ha with ha | rfl
      · exact (hfront arr ha).1
      · exact hsize
    · rcases hcases arr ha with ha | rfl
      · obtain ⟨hs, hc⟩ := hfront arr ha
        omega
      · exact hpos
    · rcases hcases arr ha with ha | rfl
      · exact (hfront arr ha).2.le
      · exact hle
    · rw [List.dropLast_concat] at ha
      exact (hfront arr ha).2

end WellFormed

lemma append_concat (cfg : Config) (item : Item) (front : List Arr) (tail : Arr) :
    append cfg item (front ++ [tail]) =
      if tail.count < tail.size then front ++ [{ tail with data := tail.data ++ [item] }]
      else front ++ [tail] ++ [⟨cfg.arrSize, [item]⟩] := by
  simp [append, spawnNewArray]

lemma WellFormed.append {cfg : Config} {pool : List Arr} (h : WellFormed cfg pool) (item : Item) :
    WellFormed cfg (append cfg item pool) := by
  have hcfg := cfg.arrSize_pos
  have hone : (⟨cfg.arrSize, [item]⟩ : Arr).count = 1 := rfl
  rcases List.eq_nil_or_concat' pool with rfl | ⟨front, tail, rfl⟩
  · exact (@concat_iff cfg [] _).2 ⟨by simp, rfl, hone.ge, hone.le.trans hcfg⟩
  · obtain ⟨hfront, hsize, hpos, hle⟩ := concat_iff.1 h
    rw [append_concat]
    split_ifs with hroom
    · have hcount : ({ tail with data := tail.data ++ [item] } : Arr).count = tail.count + 1 := by
        simp [Arr.count]
      exact concat_iff.2 ⟨hfront, hsize, by omega, by rw [hcount]; exact hroom⟩
    · refine concat_iff.2 ⟨fun arr ha => ?_, rfl, hone.ge, hone.le.trans hcfg⟩
      rcases List.mem_append.1 ha with ha | ha
      · exact hfront arr ha
      · obtain rfl := List.mem_singleton.1 ha
        exact ⟨hsize, by omega⟩

lemma records_append_item (cfg : Config) (item : Item) (pool : List Arr) :
    records (append cfg item pool) = records pool ++ [item] := by
  rcases List.eq_nil_or_concat' pool with rfl | ⟨front, tail, rfl⟩
  · rfl
  · rw [append_concat]
    split_ifs <;> simp

/-- One call drops records from the front and adds the new one at the end. -/
lemma put_spec {cfg : Config} {pool pool' : List Arr} {e : Put} {stored : List Put}
    (hstored : records pool = stored.map Put.item) (h : put cfg pool e = some pool') :
    ∃ dropped kept, stored = dropped ++ kept ∧ records pool' = (kept ++ [e]).map Put.item ∧
      ∀ d ∈ dropped, toInt d.stamp ≤ toInt (e.overview - cfg.lifetime) := by
  obtain ⟨out, hpool, hold⟩ := overviewFrom_spec (toInt (e.overview - cfg.lifetime)) pool
  obtain rfl : append cfg e.item (poolOverview cfg e.overview pool) = pool' := Option.some.inj h
  rw [hpool, records_append] at hstored
  obtain ⟨dropped, kept, rfl, hdropped, hkept⟩ := List.append_eq_map_iff.1 hstored
  refine ⟨dropped, kept, rfl, ?_, fun d hd => ?_⟩
  · rw [records_append_item, List.map_append, hkept]
    rfl
  · exact hold d.item (hdropped ▸ List.mem_map_of_mem hd)

/-! ## Runs -/

variable {cfg : Config} {es : List Put} {pool pool' : List Arr}

/-- The records are the last ones that were put. -/
lemma stored_of_run (hr : Run (StepOf (put cfg)) [] es pool) :
    WellFormed cfg pool ∧
      ∃ old stored, es = old ++ stored ∧ records pool = stored.map Put.item := by
  induction hr with
  | nil => exact ⟨.nil, [], [], rfl, rfl⟩
  | @snoc pool pool' es e _ hstep ih =>
    obtain ⟨hwf, old, stored, rfl, hrec⟩ := ih
    constructor
    · obtain ⟨out, hpool, -⟩ := overviewFrom_spec (toInt (e.overview - cfg.lifetime)) pool
      obtain rfl : append cfg e.item (poolOverview cfg e.overview pool) = pool' :=
        Option.some.inj hstep
      rw [hpool] at hwf
      exact hwf.suffix.append e.item
    · obtain ⟨dropped, kept, rfl, hrec', -⟩ := put_spec hrec hstep
      exact ⟨old ++ dropped, kept ++ [e], by simp, hrec'⟩

/-- Retention: after every call all arrays but the last are full, no array is empty, and the
records are those of the last calls, ending with this one. A call drops only records at the end of
their lifetime, unless a stored one is of a later window of the clock than the time it compares
with. -/
theorem put_retains {e : Put} (hr : Run (StepOf (put cfg)) [] es pool)
    (h : put cfg pool e = some pool') :
    WellFormed cfg pool' ∧ ∃ old dropped kept, es = old ++ dropped ++ kept ∧
      records pool = (dropped ++ kept).map Put.item ∧
      records pool' = (kept ++ [e]).map Put.item ∧
      ((∀ d ∈ dropped ++ kept, window d.stamp ≤ window (e.overview - cfg.lifetime)) →
        ∀ d ∈ dropped, cfg.lifetime ≤ e.overview - d.stamp) := by
  obtain ⟨-, old, stored, rfl, hrec⟩ := stored_of_run hr
  obtain ⟨dropped, kept, rfl, hrec', hold⟩ := put_spec hrec h
  refine ⟨(stored_of_run (hr.snoc h)).1, old, dropped, kept, by simp, hrec, hrec', ?_⟩
  intro hwindow d hd
  have hle := le_of_toInt_le (hwindow d (List.mem_append_left kept hd)) (hold d hd)
  omega

/-- Arrays of one record, kept for ten seconds. -/
def smallConfig : Config := ⟨1, 10, by decide, by decide⟩

/-- A process that used nothing. -/
def idleStats (pid : BitVec 32) (rss : BitVec 64) : Taskstats := ⟨pid, ⟨rss, 0, 0, 0, 0⟩⟩

def firstPut : Put := ⟨100, 100, idleStats 7 1⟩

def secondPut : Put := ⟨110, 110, idleStats 8 1⟩

/-- The first record has reached its lifetime when the second one is put. -/
theorem put_retains_secondPut :
    WellFormed smallConfig [⟨1, [secondPut.item]⟩] ∧ ∃ old dropped kept,
      [firstPut] = old ++ dropped ++ kept ∧
        [secondPut.item] = (kept ++ [secondPut]).map Put.item ∧
        ∀ d ∈ dropped, 10 ≤ secondPut.overview - d.stamp := by
  have hr : Run (StepOf (put smallConfig)) [] [firstPut] [⟨1, [firstPut.item]⟩] :=
    .of_foldlM (by decide)
  obtain ⟨hwf, old, dropped, kept, hes, -, hrec, hage⟩ := put_retains (e := secondPut) hr rfl
  refine ⟨hwf, old, dropped, kept, hes, hrec, hage fun d hd => ?_⟩
  have hmem : d ∈ [firstPut] := by
    rw [hes, List.append_assoc]
    exact List.mem_append_right old hd
  obtain rfl := List.mem_singleton.1 hmem
  decide

/-- The clock passes `2 ^ 31`: a record one second old is dropped. -/
theorem put_drops_young : ¬∀ (es : List Put) (pool pool' : List Arr) (e : Put),
    Run (StepOf (put smallConfig)) [] es pool → put smallConfig pool e = some pool' →
      ∃ old dropped kept, es = old ++ dropped ++ kept ∧
        records pool = (dropped ++ kept).map Put.item ∧
        records pool' = (kept ++ [e]).map Put.item ∧
        ∀ d ∈ dropped, smallConfig.lifetime ≤ e.overview - d.stamp := by
  intro h
  let d : Put := ⟨2 ^ 31, 2 ^ 31, idleStats 7 1⟩
  let e : Put := ⟨2 ^ 31 + 1, 2 ^ 31 + 1, idleStats 8 1⟩
  have hr : Run (StepOf (put smallConfig)) [] [d] [⟨1, [d.item]⟩] :=
    .of_foldlM (by decide)
  obtain ⟨old, dropped, kept, hes, hrec, hrec', hage⟩ := h _ _ [⟨1, [e.item]⟩] e hr rfl
  obtain rfl : kept = [] := by simpa using congrArg List.length hrec'
  obtain rfl : dropped = [d] := by
    have hlen : dropped.length = 1 := by simpa using (congrArg List.length hrec).symm
    have hold : old = [] := by
      have htotal := congrArg List.length hes
      simp only [List.length_append, hlen, List.length_singleton, List.length_nil] at htotal
      exact List.length_eq_zero_iff.1 (by omega)
    simpa [hold] using hes.symm
  have hyoung := hage d (List.mem_singleton_self d)
  exact absurd hyoung (by decide)

/-! ## Looking up a process -/

/-- The entries of one process. -/
def ofPid (pid : BitVec 32) (ts : List Taskstats) : List Taskstats :=
  ts.filter fun t => t.acPid = pid

/-- What is stored of a process, from the oldest to the newest record. -/
def storedOfPid (pid : BitVec 32) (pool : List Arr) : List Taskstats :=
  ofPid pid ((records pool).map Item.t)

/-- The last call for a process. -/
def mostRecent (pid : BitVec 32) (es : List Put) : Option Taskstats :=
  (ofPid pid (es.map Put.t)).getLast?

/-- The scan returns the oldest record of the process. -/
lemma statsByPidIter_eq_head? (pid : BitVec 32) (pool : List Arr) :
    statsByPidIter pid pool = (storedOfPid pid pool).head? := by
  induction pool with
  | nil => rfl
  | cons arr pool ih =>
    have hsplit : storedOfPid pid (arr :: pool) =
        ofPid pid (arr.data.map Item.t) ++ storedOfPid pid pool := by
      simp [storedOfPid, ofPid]
    have hhead : (ofPid pid (arr.data.map Item.t)).head? =
        (arr.data.find? fun i => i.t.acPid = pid).map Item.t := by
      rw [ofPid, List.head?_filter, List.find?_map]
      rfl
    rw [statsByPidIter, hsplit, List.head?_append, hhead]
    cases arr.data.find? fun i => i.t.acPid = pid with
    | none => exact ih
    | some i => rfl

lemma mostRecent_of_run (hr : Run (StepOf (put cfg)) [] es pool) {pid : BitVec 32}
    (h : storedOfPid pid pool ≠ []) : mostRecent pid es = (storedOfPid pid pool).getLast? := by
  obtain ⟨-, old, stored, rfl, hrec⟩ := stored_of_run hr
  have hstored : storedOfPid pid pool = ofPid pid (stored.map Put.t) := by
    rw [storedOfPid, hrec, List.map_map]
    rfl
  rw [hstored] at h ⊢
  have happ : ofPid pid ((old ++ stored).map Put.t) =
      ofPid pid (old.map Put.t) ++ ofPid pid (stored.map Put.t) := by
    simp [ofPid]
  rw [mostRecent, happ, List.getLast?_append_of_ne_nil _ h]

/-- The iterator finds a process exactly when a record of it is stored; and what it returns is
what was put last for the process exactly when the oldest and the newest stored record agree. -/
theorem statsByPidIter_mostRecent_iff (hr : Run (StepOf (put cfg)) [] es pool)
    (pid : BitVec 32) :
    ((statsByPidIter pid pool).isSome ↔ ∃ i ∈ records pool, i.t.acPid = pid) ∧
    ((∀ t, statsByPidIter pid pool = some t → mostRecent pid es = some t) ↔
      (storedOfPid pid pool).head? = (storedOfPid pid pool).getLast?) := by
  rw [statsByPidIter_eq_head?]
  constructor
  · rw [List.isSome_head?, storedOfPid, ofPid]
    simp [List.filter_eq_nil_iff]
  · by_cases hnil : storedOfPid pid pool = []
    · simp [hnil]
    · obtain ⟨t, ht⟩ := Option.ne_none_iff_exists'.1 (mt List.head?_eq_none_iff.1 hnil)
      rw [mostRecent_of_run hr hnil, ht]
      simp [eq_comm]

/-- Process number 7 is used again while its first record is stored. -/
def reusePuts : List Put := [⟨100, 100, idleStats 7 1⟩, ⟨101, 101, idleStats 7 2⟩]

lemma reusePuts_isSome : (reusePuts.foldlM (put smallConfig) []).isSome := by decide

/-- Two processes, and the first one once more. -/
def repeatedPuts : List Put :=
  [⟨100, 100, idleStats 7 1⟩, ⟨101, 101, idleStats 8 3⟩, ⟨102, 102, idleStats 7 1⟩]

lemma repeatedPuts_isSome : (repeatedPuts.foldlM (put smallConfig) []).isSome := by decide

/-- Where the stored records of a process agree, the last one is found. -/
theorem statsByPidIter_repeated :
    mostRecent 7 repeatedPuts = some (idleStats 7 1) ∧
      mostRecent 8 repeatedPuts = some (idleStats 8 3) := by
  have hr := Run.get_foldlM _ _ repeatedPuts_isSome
  exact ⟨(statsByPidIter_mostRecent_iff hr 7).2.2 (by decide) _ (by decide),
    (statsByPidIter_mostRecent_iff hr 8).2.2 (by decide) _ (by decide)⟩

theorem statsByPidIter_stale : ¬∀ (es : List Put) (pool : List Arr) (pid : BitVec 32)
    (t : Taskstats), Run (StepOf (put smallConfig)) [] es pool →
      statsByPidIter pid pool = some t → mostRecent pid es = some t := by
  intro h
  have hr := Run.get_foldlM _ _ reusePuts_isSome
  have hlast := h _ _ 7 (idleStats 7 1) hr (by decide)
  exact absurd hlast (by decide)

end WebTester.Librun.HvPool
