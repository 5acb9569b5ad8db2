/- MID: SignalAgent/Index/BatchSelection
   layer: results
   source: components/edgecontroller/known_timeseries_cache.go
   digest: Active and inactive batches pick exactly the series whose window says so. -/

import SignalAgent.Index.LazyAdvance

set_option autoImplicit false
set_option relaxedAutoImplicit false

namespace SignalAgent.Index.BatchSelection

open Foundations.GoMaps Foundations.GuardedRuns Foundations.RingWindow
open KnownCache SlidingWindow LazyAdvance

/-- The samples recorded for a key, by hour, since it was last deleted. -/
def record (key : HashKey) (sofar : List (Nat × Int)) : CacheOp → List (Nat × Int)
  | .updateTimeseries k entry now =>
    if k = key then sofar ++ [(now / 3600, entry.samples)] else sofar
  | .deleteBatch keys => if key ∈ keys then [] else sofar
  | .init => []
  | _ => sofar

def recorded (ops : List CacheOp) (key : HashKey) : List (Nat × Int) := ops.foldl (record key) []

/-- The samples of a key in the eight hours that end at this clock reading. -/
def windowTotal (ops : List CacheOp) (key : HashKey) (now : Nat) : Int :=
  windowSum hoursLog (now / 3600) (recorded ops key)

/-- The entry was not synced since the threshold and has samples in its window. -/
def eligible (ops : List CacheOp) (cache : KnownTimeseriesCache) (olderThan : Int) (now : Nat)
    (key : HashKey) : Bool :=
  (cache.lookup key).any (fun entry => decide ((entry.lastBackendSync : Int) < olderThan)) &&
    decide (windowTotal ops key now ≠ 0)

def idle (ops : List CacheOp) (now : Nat) (key : HashKey) : Bool :=
  decide (windowTotal ops key now = 0)

def eligibleKeys (ops : List CacheOp) (cache : KnownTimeseriesCache) (olderThan : Int)
    (now : Nat) : Finset HashKey :=
  cache.keys.filter (fun key => eligible ops cache olderThan now key = true)

def idleKeys (ops : List CacheOp) (cache : KnownTimeseriesCache) (now : Nat) : Finset HashKey :=
  cache.keys.filter (fun key => idle ops now key = true)

/-- As many items as asked for or eligible, of distinct eligible keys, each with its window total
and its update time in milliseconds. -/
structure ExactActive (ops : List CacheOp) (cache : KnownTimeseriesCache) (olderThan : Int)
    (n now : Nat) (items : List KnownActiveTimeseriesItem) : Prop where
  size : items.length = min n (eligibleKeys ops cache olderThan now).card
  distinct : (items.map KnownActiveTimeseriesItem.hashKey).Nodup
  each : ∀ item ∈ items, item.hashKey ∈ eligibleKeys ops cache olderThan now ∧
    item.totalSamples = windowTotal ops item.hashKey now ∧
    ∃ entry, cache.lookup item.hashKey = some entry ∧ item.lastUpdate = entry.lastUpdate * 1000

structure ExactInactive (ops : List CacheOp) (cache : KnownTimeseriesCache) (n now : Nat)
    (keys : List HashKey) : Prop where
  size : keys.length = min n (idleKeys ops cache now).card
  distinct : keys.Nodup
  each : ∀ key ∈ keys, key ∈ idleKeys ops cache now

section Accounting

/-- Every entry is the window of what was recorded for its key, at no later hour than the clock;
nothing is recorded for an absent key. -/
structure Accounts (ops : List CacheOp) (s : Observed) : Prop where
  tracks : Tracks s
  absent : ∀ k, s.cache.lookup k = none → recorded ops k = []
  present : ∀ k entry, s.cache.lookup k = some entry → credits (s.log k) = recorded ops k
  timely : ∀ k entry, s.cache.lookup k = some entry →
    ∀ time, (∀ read ∈ readings ops, read ≤ time) → entry.lastHour ≤ time / 3600

variable {ops : List CacheOp} {op : CacheOp} {s t : Observed}

private theorem recorded_concat (ops : List CacheOp) (op : CacheOp) (key : HashKey) :
    recorded (ops ++ [op]) key = record key (recorded ops key) op := by
  simp [recorded]

private theorem readings_concat (ops : List CacheOp) (op : CacheOp) :
    readings (ops ++ [op]) = readings ops ++ (clockReading op).toList := by
  rw [readings, List.filterMap_append, readings]
  cases read : clockReading op <;> simp [read]

private theorem earlier_of_clock (clock : (readings (ops ++ [op])).Pairwise (· ≤ ·)) {now : Nat}
    (read : clockReading op = some now) : ∀ earlier ∈ readings ops, earlier ≤ now := by
  intro earlier member
  rw [readings_concat, read] at clock
  exact (List.pairwise_append.mp clock).2.2 earlier member now (by simp)

private theorem bounds_of_concat {time : Nat}
    (bounded : ∀ read ∈ readings (ops ++ [op]), read ≤ time) :
    (∀ read ∈ readings ops, read ≤ time) ∧ ∀ now, clockReading op = some now → now ≤ time := by
  rw [readings_concat] at bounded
  refine ⟨fun read member => bounded read (List.mem_append_left _ member), fun now read => ?_⟩
  exact bounded now (List.mem_append_right _ (by simp [read]))

/-- How an entry may change in a call that records nothing. -/
private def Unrecorded (ops : List CacheOp) (op : CacheOp) (s t : Observed) (k : HashKey) : Prop :=
  (s.cache.lookup k = none ∧ t.cache.lookup k = none) ∨
    ∃ entry entry', s.cache.lookup k = some entry ∧ t.cache.lookup k = some entry' ∧
      credits (t.log k) = credits (s.log k) ∧
      ∀ time, (∀ read ∈ readings (ops ++ [op]), read ≤ time) → entry.lastHour ≤ time / 3600 →
        entry'.lastHour ≤ time / 3600

private theorem accounts_of_unrecorded (accounts : Accounts ops s) (edge : step s op = some t)
    (quiet : ∀ key sofar, record key sofar op = sofar)
    (entries : ∀ k, Unrecorded ops op s t k) : Accounts (ops ++ [op]) t := by
  refine ⟨step_tracks accounts.tracks edge, ?_, ?_, ?_⟩
  · intro k none
    rw [recorded_concat, quiet]
    rcases entries k with ⟨before, -⟩ | ⟨entry, entry', -, after, -⟩
    · exact accounts.absent k before
    · rw [none] at after
      cases after
  · intro k entry' found
    rw [recorded_concat, quiet]
    rcases entries k with ⟨-, after⟩ | ⟨entry, -, before, -, same, -⟩
    · rw [found] at after
      cases after
    · rw [same]
      exact accounts.present k entry before
  · intro k entry' found time bounded
    rcases entries k with ⟨-, after⟩ | ⟨entry, other, before, after, -, kept⟩
    · rw [found] at after
      cases after
    · rw [found] at after
      obtain rfl := Option.some.inj after
      exact kept time bounded
        (accounts.timely k entry before time (bounds_of_concat bounded).1)

private theorem unrecorded_scan {ι : Type} {now : Nat} {scan : Scan ι}
    {pick : HashKey → KnownTimeseriesEntry → Option ι}
    (effect : ScanEffect (now / 3600) pick s.cache scan)
    (read : scan.touched ≠ [] → clockReading op = some now) (k : HashKey) :
    Unrecorded ops op s (afterScan s scan now) k := by
  have after : (afterScan s scan now).cache.lookup k = _ := effect.lookup k
  cases before : s.cache.lookup k with
  | none =>
    refine .inl ⟨before, ?_⟩
    rw [after, before]
    split <;> rfl
  | some entry =>
    by_cases touched : k ∈ scan.touched
    · rw [before, if_pos touched] at after
      have reading := read (List.ne_nil_of_mem touched)
      refine .inr ⟨entry, _, before, after, ?_, ?_⟩
      · simp [afterScan, touched, credits_append_single]
      · intro time bounded timely
        have within := (bounds_of_concat bounded).2 now reading
        have hours : now / 3600 ≤ time / 3600 := Nat.div_le_div_right within
        rw [advanceRingBuffer_lastHour]
        omega
    · rw [before, if_neg touched] at after
      refine .inr ⟨entry, entry, before, after, ?_, fun _ _ timely => timely⟩
      simp [afterScan, touched]

private theorem unrecorded_synced {synced : Nat} (marked : HashKey → Prop) [DecidablePred marked]
    (lookup : ∀ k, t.cache.lookup k = if marked k then
      (s.cache.lookup k).map (fun e => { e with lastBackendSync := synced })
      else s.cache.lookup k) (log : t.log = s.log) (k : HashKey) : Unrecorded ops op s t k := by
  have after := lookup k
  cases before : s.cache.lookup k with
  | none =>
    refine .inl ⟨before, ?_⟩
    rw [after, before]
    split <;> rfl
  | some entry =>
    rw [before] at after
    split at after
    · exact .inr ⟨entry, _, before, after, by rw [log], fun _ _ timely => timely⟩
    · exact .inr ⟨entry, entry, before, after, by rw [log], fun _ _ timely => timely⟩

section Update

variable {key k : HashKey} {entry : TimeseriesEntry} {now : Nat}

private theorem record_other (other : k ≠ key) :
    record k (recorded ops k) (.updateTimeseries key entry now) = recorded ops k :=
  if_neg (Ne.symm other)

private theorem present_update (accounts : Accounts ops s)
    (edge : step s (.updateTimeseries key entry now) = some t)
    (earlier : ∀ read ∈ readings ops, read ≤ now) {entry' : KnownTimeseriesEntry}
    (found : t.cache.lookup k = some entry') :
    credits (t.log k) = recorded (ops ++ [.updateTimeseries key entry now]) k := by
  -- No entry is ahead of the clock, so the update is credited at its hour.
  obtain rfl := Option.some.inj edge
  dsimp only at found ⊢
  rw [lookup_updateTimeseries] at found
  rw [recorded_concat]
  by_cases same : k = key
  · subst same
    rw [if_pos rfl, record, if_pos rfl, credits_append_single]
    cases before : s.cache.lookup k with
    | none =>
      have fresh : k ∉ s.cache := Finmap.lookup_eq_none.mp before
      rw [if_neg fresh, accounts.absent k before]
      simp [credits, creditsFrom, latestHour]
    | some existing =>
      have member : k ∈ s.cache := mem_of_lookup before
      have behind := accounts.timely k existing before now earlier
      rw [(accounts.tracks k existing before).lastHour] at behind
      rw [if_pos member, accounts.present k existing before, max_eq_right behind]
      rfl
  · rw [if_neg same] at found ⊢
    rw [record_other same]
    exact accounts.present k entry' found

private theorem timely_update (accounts : Accounts ops s)
    (edge : step s (.updateTimeseries key entry now) = some t)
    (earlier : ∀ read ∈ readings ops, read ≤ now) {entry' : KnownTimeseriesEntry}
    (found : t.cache.lookup k = some entry') {time : Nat}
    (bounded : ∀ read ∈ readings (ops ++ [.updateTimeseries key entry now]), read ≤ time) :
    entry'.lastHour ≤ time / 3600 := by
  obtain ⟨past, present⟩ := bounds_of_concat bounded
  have hours : now / 3600 ≤ time / 3600 := Nat.div_le_div_right (present now rfl)
  obtain rfl := Option.some.inj edge
  dsimp only at found
  rw [lookup_updateTimeseries] at found
  by_cases same : k = key
  · subst same
    rw [if_pos rfl] at found
    obtain rfl := Option.some.inj found
    cases before : s.cache.lookup k with
    | none => exact hours
    | some existing =>
      have behind := accounts.timely k existing before now earlier
      have moved : (advanceRingBuffer existing (now / 3600)).lastHour ≤ time / 3600 := by
        rw [advanceRingBuffer_lastHour]
        omega
      exact moved
  · rw [if_neg same] at found
    exact accounts.timely k entry' found time past

private theorem accounts_update (accounts : Accounts ops s)
    (clock : (readings (ops ++ [.updateTimeseries key entry now])).Pairwise (· ≤ ·))
    (edge : step s (.updateTimeseries key entry now) = some t) :
    Accounts (ops ++ [.updateTimeseries key entry now]) t := by
  have earlier := earlier_of_clock clock rfl
  refine ⟨step_tracks accounts.tracks edge, fun k none => ?_,
    fun k entry' found => present_update accounts edge earlier found,
    fun k entry' found time bounded => timely_update accounts edge earlier found bounded⟩
  obtain rfl := Option.some.inj edge
  dsimp only at none
  rw [lookup_updateTimeseries] at none
  by_cases same : k = key
  · rw [if_pos same] at none
    cases none
  · rw [if_neg same] at none
    rw [recorded_concat, record_other same]
    exact accounts.absent k none

end Update

private theorem accounts_scan (accounts : Accounts ops s) (edge : step s op = some t)
    (quiet : ∀ key sofar, record key sofar op = sofar) {batchSize : Int} {now : Nat}
    (scans : Scans s batchSize now t)
    (read : clockReading op = if batchSize ≤ 0 then none else some now) :
    Accounts (ops ++ [op]) t := by
  obtain ⟨ι, pick, scan, effect, rfl, none⟩ := scans
  apply accounts_of_unrecorded accounts edge quiet
  apply unrecorded_scan effect
  intro touched
  rw [read, if_neg]
  exact fun small => touched (none small)

private theorem accounts_delete (accounts : Accounts ops s) {keys : List HashKey}
    (edge : step s (.deleteBatch keys) = some t) : Accounts (ops ++ [.deleteBatch keys]) t := by
  have tracks := step_tracks accounts.tracks edge
  obtain rfl := Option.some.inj edge
  have lookup (k : HashKey) : (deleteBatch s.cache keys).lookup k =
      if k ∈ keys then none else s.cache.lookup k := lookup_deleteAll s.cache keys k
  refine ⟨tracks, fun k none => ?_, fun k entry found => ?_, fun k entry found time bounded => ?_⟩
  · rw [recorded_concat, record]
    split
    · rfl
    · rename_i kept
      rw [lookup k, if_neg kept] at none
      exact accounts.absent k none
  · rw [lookup k] at found
    rw [recorded_concat, record]
    split at found
    · cases found
    · rename_i kept
      dsimp only
      rw [if_neg kept, if_neg kept]
      exact accounts.present k entry found
  · rw [lookup k] at found
    split at found
    · cases found
    · exact accounts.timely k entry found time (bounds_of_concat bounded).1

private theorem accounts_step (accounts : Accounts ops s)
    (clock : (readings (ops ++ [op])).Pairwise (· ≤ ·)) (edge : step s op = some t) :
    Accounts (ops ++ [op]) t := by
  cases op with
  | updateTimeseries key entry now => exact accounts_update accounts clock edge
  | getActive olderThan batchSize now order =>
    exact accounts_scan accounts edge (fun _ _ => rfl) (scans_of_getActive edge) rfl
  | getInactive batchSize now order =>
    exact accounts_scan accounts edge (fun _ _ => rfl) (scans_of_getInactive edge) rfl
  | markSynced key now =>
    have taken := edge
    obtain rfl := Option.some.inj taken
    exact accounts_of_unrecorded accounts edge (fun _ _ => rfl)
      (unrecorded_synced (fun k => k = key) (fun k => lookup_modify _ _ _ _) rfl)
  | markSyncedBatch keys now =>
    have taken := edge
    obtain rfl := Option.some.inj taken
    exact accounts_of_unrecorded accounts edge (fun _ _ => rfl)
      (unrecorded_synced (fun k => k ∈ keys) (fun k => lookup_markSyncedBatch _ _ _ _) rfl)
  | deleteBatch keys => exact accounts_delete accounts edge
  | init =>
    have tracks := step_tracks accounts.tracks edge
    obtain rfl := Option.some.inj edge
    refine ⟨tracks, fun k _ => ?_, fun k entry found => ?_, fun k entry found => ?_⟩
    · rw [recorded_concat]
      rfl
    · cases found
    · cases found

theorem accounts_of_run (run : Run step (fun _ _ => True) Observed.initial ops s)
    (clock : (readings ops).Pairwise (· ≤ ·)) : Accounts ops s := by
  refine run.invariant (fun ops s => (readings ops).Pairwise (· ≤ ·) → Accounts ops s) ?_ ?_ clock
  · intro _
    refine ⟨?_, fun _ _ => rfl, ?_, ?_⟩ <;>
    · intro k entry found
      cases found
  · intro acts s t a accounts _ edge clock
    have before : (readings acts).Pairwise (· ≤ ·) := by
      rw [readings_concat] at clock
      exact (List.pairwise_append.mp clock).1
    exact accounts_step (accounts before) clock edge

theorem Accounts.sumSamples_eq (accounts : Accounts ops s) {k : HashKey}
    {entry : KnownTimeseriesEntry} (found : s.cache.lookup k = some entry) {now : Nat}
    (later : ∀ read ∈ readings ops, read ≤ now) :
    sumSamples (advanceRingBuffer entry (now / 3600)) = windowTotal ops k now := by
  have advanced := (accounts.tracks k entry found).advance (now / 3600)
  have behind := accounts.timely k entry found now later
  rw [SlidingWindow.sumSamples_eq, advanced.window.sum (by decide), advanceRingBuffer_lastHour,
    max_eq_right behind, credits_append_single, windowTotal, ← accounts.present k entry found]
  simp

end Accounting

section Selecting

variable {ops : List CacheOp} {s : Observed} {now : Nat}

private theorem filterMap_take {ι : Type} {P : HashKey → Option ι} {keep : HashKey → Bool}
    {item : HashKey → ι} {order : List HashKey} (n : Nat)
    (picks : ∀ k ∈ order, P k = if keep k then some (item k) else none) :
    (order.filterMap P).take n = ((order.filter keep).take n).map item := by
  have whole : order.filterMap P = (order.filter keep).map item := by
    induction order with
    | nil => rfl
    | cons k order ih =>
      have here := picks k List.mem_cons_self
      have rest := ih (fun k' member => picks k' (List.mem_cons_of_mem k member))
      cases kept : keep k with
      | true =>
        rw [kept, if_pos rfl] at here
        rw [List.filterMap_cons_some here, List.filter_cons_of_pos kept, List.map_cons, rest]
      | false =>
        rw [kept, if_neg Bool.false_ne_true] at here
        rw [List.filterMap_cons_none here, List.filter_cons_of_neg (by simp [kept]), rest]
  rw [whole, List.map_take]

private theorem kept_front {order : List HashKey} (visits : IterationOrder s.cache order)
    (keep : HashKey → Bool) (n : Nat) :
    ((order.filter keep).take n).length =
        min n (s.cache.keys.filter (fun k => keep k = true)).card ∧
      ((order.filter keep).take n).Nodup ∧
      ∀ k ∈ (order.filter keep).take n, k ∈ s.cache.keys.filter (fun k => keep k = true) := by
  refine ⟨?_, ?_, ?_⟩
  · rw [List.length_take, visits.length_filter]
  · exact (visits.1.filter keep).sublist (List.take_sublist n _)
  · intro k member
    obtain ⟨listed, kept⟩ := List.mem_filter.mp (List.mem_of_mem_take member)
    rw [Finset.mem_filter, Finmap.mem_keys]
    exact ⟨(visits.2 k).mp listed, kept⟩

/-- The item of an eligible key. -/
private def activeItem (ops : List CacheOp) (cache : KnownTimeseriesCache) (now : Nat)
    (key : HashKey) : KnownActiveTimeseriesItem :=
  ⟨key, windowTotal ops key now, ((cache.lookup key).map (fun e => e.lastUpdate * 1000)).getD 0⟩

private theorem picked_active (accounts : Accounts ops s)
    (later : ∀ read ∈ readings ops, read ≤ now) (olderThan : Int) (k : HashKey) :
    picked (now / 3600) (pickActive olderThan) s.cache k =
      if eligible ops s.cache olderThan now k then some (activeItem ops s.cache now k)
      else none := by
  cases found : s.cache.lookup k with
  | none => simp [picked, eligible, found]
  | some entry =>
    have total := accounts.sumSamples_eq found later
    have shown := visible_advanceRingBuffer entry (now / 3600)
    simp only [visible, Prod.mk.injEq] at shown
    simp only [picked, found, Option.bind_some, pickActive, total, shown.2.1, shown.2.2, eligible,
      Option.any_some, activeItem, Option.map_some, Option.getD_some]
    by_cases synced : olderThan ≤ entry.lastBackendSync
    · simp [synced]
    · by_cases nothing : windowTotal ops k now = 0
      · simp [nothing]
      · simp [synced, nothing]

private theorem picked_inactive (accounts : Accounts ops s)
    (later : ∀ read ∈ readings ops, read ≤ now) {k : HashKey} (present : k ∈ s.cache) :
    picked (now / 3600) pickInactive s.cache k = if idle ops now k then some k else none := by
  obtain ⟨entry, found⟩ := Option.isSome_iff_exists.mp (Finmap.lookup_isSome.mpr present)
  have total := accounts.sumSamples_eq found later
  simp only [picked, found, Option.bind_some, pickInactive, total, idle, decide_eq_true_eq]

private theorem exactActive (accounts : Accounts ops s)
    (later : ∀ read ∈ readings ops, read ≤ now) (olderThan : Int) (n : Nat)
    {order : List HashKey} (visits : IterationOrder s.cache order) :
    ExactActive ops s.cache olderThan n now
      (getActiveTimeseriesBatch s.cache olderThan n now order).items := by
  obtain ⟨size, distinct, kept⟩ := kept_front visits (eligible ops s.cache olderThan now) n
  have items : (getActiveTimeseriesBatch s.cache olderThan n now order).items =
      ((order.filter (eligible ops s.cache olderThan now)).take n).map
        (activeItem ops s.cache now) := by
    rw [getActiveTimeseriesBatch_items _ _ _ _ _ visits.1, Int.toNat_natCast]
    exact filterMap_take n (fun k _ => picked_active accounts later olderThan k)
  rw [items]
  constructor
  · rw [List.length_map, size]
    rfl
  · rw [List.map_map]
    exact (List.map_id _).symm ▸ distinct
  · intro item member
    obtain ⟨k, inside, rfl⟩ := List.mem_map.mp member
    have chosen := kept k inside
    have present : k ∈ s.cache := Finmap.mem_keys.mp (Finset.mem_filter.mp chosen).1
    obtain ⟨entry, found⟩ := Option.isSome_iff_exists.mp (Finmap.lookup_isSome.mpr present)
    refine ⟨chosen, rfl, entry, found, ?_⟩
    simp [activeItem, found]

private theorem exactInactive (accounts : Accounts ops s)
    (later : ∀ read ∈ readings ops, read ≤ now) (n : Nat) {order : List HashKey}
    (visits : IterationOrder s.cache order) :
    ExactInactive ops s.cache n now (getInactiveTimeseriesBatch s.cache n now order).items := by
  obtain ⟨size, distinct, kept⟩ := kept_front visits (idle ops now) n
  have items : (getInactiveTimeseriesBatch s.cache n now order).items =
      (order.filter (idle ops now)).take n := by
    rw [getInactiveTimeseriesBatch_items _ _ _ _ visits.1, Int.toNat_natCast,
      filterMap_take n (fun k listed =>
        picked_inactive accounts later ((visits.2 k).mp listed))]
    exact List.map_id _
  rw [items]
  exact ⟨size, distinct, kept⟩

private theorem partition_keys (ops : List CacheOp) (cache : KnownTimeseriesCache) (now : Nat)
    {olderThan : Int} (above : ∀ k entry, cache.lookup k = some entry →
      (entry.lastBackendSync : Int) < olderThan) :
    Disjoint (eligibleKeys ops cache olderThan now) (idleKeys ops cache now) ∧
      eligibleKeys ops cache olderThan now ∪ idleKeys ops cache now = cache.keys := by
  have eligible_iff : ∀ k ∈ cache.keys, (eligible ops cache olderThan now k = true ↔
      ¬ idle ops now k = true) := by
    intro k member
    obtain ⟨entry, found⟩ :=
      Option.isSome_iff_exists.mp (Finmap.lookup_isSome.mpr (Finmap.mem_keys.mp member))
    simp [eligible, idle, found, above k entry found]
  have complement : eligibleKeys ops cache olderThan now =
      cache.keys.filter (fun k => ¬ idle ops now k = true) := Finset.filter_congr eligible_iff
  rw [complement, idleKeys, Finset.union_comm]
  exact ⟨(Finset.disjoint_filter_filter_not _ _ _).symm, Finset.filter_union_filter_not_eq _ _⟩

/-- A scan of either kind at this clock reading. -/
inductive ScanAt (now : Nat) : CacheOp → Prop where
  | active (olderThan batchSize : Int) (order : List HashKey) :
      ScanAt now (.getActive olderThan batchSize now order)
  | inactive (batchSize : Int) (order : List HashKey) :
      ScanAt now (.getInactive batchSize now order)

private theorem alike_of_scan (accounts : Accounts ops s) {op : CacheOp} (scans : ScanAt now op)
    {t : Observed} (edge : step s op = some t) : Alike (now / 3600) t s := by
  have tracks := step_tracks accounts.tracks edge
  obtain ⟨batchSize, ι, pick, scan, effect, left, -⟩ : ∃ batchSize, Scans s batchSize now t := by
    cases scans with
    | active olderThan batchSize order => exact ⟨batchSize, scans_of_getActive edge⟩
    | inactive batchSize order => exact ⟨batchSize, scans_of_getInactive edge⟩
  exact alike_afterScan accounts.tracks tracks effect (congrArg Observed.cache left)

end Selecting

/-- What a scan leaves: every key with its name, update time and sync time, and the answers to
every later sequence of calls. -/
def Unobservable (now : Nat) (s : Observed) : Prop :=
  ∀ op t, ScanAt now op → step s op = some t →
    (∀ k, (t.cache.lookup k).map visible = (s.cache.lookup k).map visible) ∧
      ∀ later, (now :: readings later).Pairwise (· ≤ ·) → answers t later = answers s later

/-- For every state reached under a clock that does not run backwards and every reading not before
it: both batches are exact for any iteration order, the two kinds of keys partition the cache under
a threshold above every sync time, and the scans are not observable. -/
theorem batches_select_exactly {ops : List CacheOp} {s : Observed} {now : Nat}
    (run : Run step (fun _ _ => True) Observed.initial ops s)
    (clock : (readings ops ++ [now]).Pairwise (· ≤ ·)) :
    (∀ (olderThan : Int) (n : Nat) (order : List HashKey), IterationOrder s.cache order →
      ExactActive ops s.cache olderThan n now
        (getActiveTimeseriesBatch s.cache olderThan n now order).items) ∧
    (∀ (n : Nat) (order : List HashKey), IterationOrder s.cache order →
      ExactInactive ops s.cache n now (getInactiveTimeseriesBatch s.cache n now order).items) ∧
    (∀ olderThan : Int, (∀ k entry, s.cache.lookup k = some entry →
        (entry.lastBackendSync : Int) < olderThan) →
      Disjoint (eligibleKeys ops s.cache olderThan now) (idleKeys ops s.cache now) ∧
        eligibleKeys ops s.cache olderThan now ∪ idleKeys ops s.cache now = s.cache.keys) ∧
    Unobservable now s := by
  have before := (List.pairwise_append.mp clock).1
  have later : ∀ read ∈ readings ops, read ≤ now := fun read member =>
    (List.pairwise_append.mp clock).2.2 read member now List.mem_cons_self
  have accounts := accounts_of_run run before
  refine ⟨fun olderThan n order visits => exactActive accounts later olderThan n visits,
    fun n order visits => exactInactive accounts later n visits,
    fun olderThan above => partition_keys ops s.cache now above, ?_⟩
  intro op t scans edge
  have alike := alike_of_scan accounts scans edge
  exact ⟨alike.visible_eq, fun ops' forward => answers_eq_of_alike alike ops' forward⟩

/-- A series last seen at hour 0 and one updated at hour 11, when the scan comes. -/
private def oldAndNew : List CacheOp :=
  [.updateTimeseries (HashKey.repeated 1) ⟨[], [], 5⟩ 100,
    .updateTimeseries (HashKey.repeated 2) ⟨[], [], 3⟩ 40000]

theorem batches_of_old_and_new :
    ∃ s, Run step (fun _ _ => True) Observed.initial oldAndNew s ∧
      ExactActive oldAndNew s.cache 30000 1 40000 (getActiveTimeseriesBatch s.cache 30000 1 40000
        [HashKey.repeated 1, HashKey.repeated 2]).items ∧
      ExactInactive oldAndNew s.cache 1 40000 (getInactiveTimeseriesBatch s.cache 1 40000
        [HashKey.repeated 1, HashKey.repeated 2]).items ∧
      windowTotal oldAndNew (HashKey.repeated 1) 40000 = 0 ∧
      windowTotal oldAndNew (HashKey.repeated 2) 40000 = 3 := by
  let order := [HashKey.repeated 1, HashKey.repeated 2]
  have executed : (exec step (fun _ _ => true) Observed.initial oldAndNew).any
      (fun s => decide (IterationOrder s.cache order)) = true := by
    decide +kernel
  obtain ⟨s, run, checked⟩ :=
    exists_run_of_exec (fun _ _ => true) oldAndNew _ (fun _ _ _ => trivial) executed
  have visits : IterationOrder s.cache order := of_decide_eq_true checked
  have clock : (readings oldAndNew ++ [40000]).Pairwise (· ≤ ·) := by decide
  obtain ⟨active, inactive, -⟩ := batches_select_exactly run clock
  exact ⟨s, run, active 30000 1 order visits, inactive 1 order visits, by decide, by decide⟩

end SignalAgent.Index.BatchSelection
