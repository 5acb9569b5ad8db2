/- MID: SignalAgent/Index/LazyAdvance
   layer: results
   source: components/edgecontroller/known_timeseries_cache.go
   digest: Advancing an entry early or late makes no difference to any later call. -/

import SignalAgent.Index.SlidingWindow

set_option autoImplicit false
set_option relaxedAutoImplicit false

namespace SignalAgent.Index.LazyAdvance

open Foundations.GoMaps Foundations.GoText Foundations.RingWindow
open KnownCache SlidingWindow

section Advancing

variable {entry entry' : KnownTimeseriesEntry} {log log' : List Observation}

private theorem samples_ext (same : ∀ i < hoursLog, entry.slot i = entry'.slot i) :
    entry.samples = entry'.samples := by
  apply Vector.ext
  intro i small
  have slots := same i small
  simpa [KnownTimeseriesEntry.slot, small] using slots

/-- What an entry shows besides its ring. -/
def visible (entry : KnownTimeseriesEntry) : GoString × Nat × Nat :=
  (entry.metricName, entry.lastUpdate, entry.lastBackendSync)

theorem represents_unique (rep : Represents entry log) (rep' : Represents entry' log')
    (history : credits log = credits log') (hour : entry.lastHour = entry'.lastHour)
    (shown : visible entry = visible entry') : entry = entry' := by
  have ring : entry.samples = entry'.samples := by
    apply samples_ext
    intro i small
    rw [rep.window.filled i small, rep'.window.filled i small, history, hour]
  have head : entry.head = entry'.head := by
    apply UInt8.toNat_inj.mp
    rw [rep.head, rep'.head, hour]
  obtain ⟨name, update, sync, last, top, samples⟩ := entry
  obtain ⟨name', update', sync', last', top', samples'⟩ := entry'
  simp only [visible, Prod.mk.injEq] at shown
  simp only [KnownTimeseriesEntry.mk.injEq]
  exact ⟨shown.1, shown.2.1, shown.2.2, hour, head, ring⟩

@[simp] theorem visible_advanceRingBuffer (entry : KnownTimeseriesEntry) (hour : Nat) :
    visible (advanceRingBuffer entry hour) = visible entry := by
  have iterated (n : Nat) (e : KnownTimeseriesEntry) : visible (advanceOne^[n] e) = visible e := by
    induction n generalizing e with
    | zero => rfl
    | succ n ih => exact ih (advanceOne e)
  unfold advanceRingBuffer
  split
  · rfl
  · dsimp only
    split
    · rfl
    · exact iterated _ entry

theorem advanceRingBuffer_twice (rep : Represents entry log) {hour later : Nat}
    (order : hour ≤ later) :
    advanceRingBuffer (advanceRingBuffer entry hour) later = advanceRingBuffer entry later := by
  apply represents_unique ((rep.advance hour).advance later) (rep.advance later)
  · simp only [credits_append_single, Option.map_none, Option.toList_none, List.append_nil]
  · simp only [advanceRingBuffer_lastHour]
    omega
  · simp

private theorem advanceRingBuffer_synced (rep : Represents entry log) (hour synced : Nat) :
    advanceRingBuffer { entry with lastBackendSync := synced } hour =
      { advanceRingBuffer entry hour with lastBackendSync := synced } := by
  have changed : Represents { entry with lastBackendSync := synced } log := rep.congr rfl rfl rfl
  have advanced : Represents { advanceRingBuffer entry hour with lastBackendSync := synced }
      (log ++ [⟨hour, none⟩]) := (rep.advance hour).congr rfl rfl rfl
  apply represents_unique (changed.advance hour) advanced rfl
  · simp only [advanceRingBuffer_lastHour]
  · have before := visible_advanceRingBuffer entry hour
    rw [visible_advanceRingBuffer]
    simp only [visible, Prod.mk.injEq] at before ⊢
    exact ⟨before.1.symm, before.2.1.symm, trivial⟩

end Advancing

/-- The clock reading a call takes; a scan for an empty batch returns before it. -/
def clockReading : CacheOp → Option Nat
  | .updateTimeseries _ _ now => some now
  | .getActive _ batchSize now _ => if batchSize ≤ 0 then none else some now
  | .getInactive batchSize now _ => if batchSize ≤ 0 then none else some now
  | .markSynced _ now => some now
  | .markSyncedBatch _ now => some now
  | .deleteBatch _ => none
  | .init => none

def readings (ops : List CacheOp) : List Nat := ops.filterMap clockReading

/-- What a call returns. -/
inductive Reply where
  | done
  | active (items : List KnownActiveTimeseriesItem)
  | inactive (keys : List HashKey)
  deriving DecidableEq

def reply (cache : KnownTimeseriesCache) : CacheOp → Reply
  | .getActive olderThan batchSize now order =>
    .active (getActiveTimeseriesBatch cache olderThan batchSize now order).items
  | .getInactive batchSize now order =>
    .inactive (getInactiveTimeseriesBatch cache batchSize now order).items
  | _ => .done

/-- What a caller can learn from one call: its result, and afterwards which keys there are, with
the name, the update time and the sync time of each. -/
structure Answer where
  reply : Reply
  entries : HashKey → Option (GoString × Nat × Nat)

/-- The answers to a sequence of calls; nothing if a scan is given no iteration order. -/
def answers : Observed → List CacheOp → Option (List Answer)
  | _, [] => some []
  | s, op :: ops =>
    (step s op).bind (fun t => (answers t ops).map
      (fun rest => ⟨reply s.cache op, fun k => (t.cache.lookup k).map visible⟩ :: rest))

/-- Two caches that differ only in which entries have been advanced to this hour already. -/
structure Alike (hour : Nat) (s t : Observed) : Prop where
  tracks : Tracks s
  tracks' : Tracks t
  advanced : ∀ k, (s.cache.lookup k).map (advanceRingBuffer · hour) =
    (t.cache.lookup k).map (advanceRingBuffer · hour)

section Alike

variable {hour later : Nat} {s t : Observed}

private theorem map_twice {s : Observed} (tracks : Tracks s) (order : hour ≤ later) (k : HashKey) :
    ((s.cache.lookup k).map (advanceRingBuffer · hour)).map (advanceRingBuffer · later) =
      (s.cache.lookup k).map (advanceRingBuffer · later) := by
  cases found : s.cache.lookup k with
  | none => rfl
  | some entry =>
    simp only [Option.map_some]
    rw [advanceRingBuffer_twice (tracks k entry found) order]

theorem Alike.lift (alike : Alike hour s t) (order : hour ≤ later) : Alike later s t where
  tracks := alike.tracks
  tracks' := alike.tracks'
  advanced k := by
    rw [← map_twice alike.tracks order, ← map_twice alike.tracks' order, alike.advanced k]

theorem Alike.visible_eq (alike : Alike hour s t) (k : HashKey) :
    (s.cache.lookup k).map visible = (t.cache.lookup k).map visible := by
  have shown (cache : KnownTimeseriesCache) : (cache.lookup k).map visible =
      ((cache.lookup k).map (advanceRingBuffer · hour)).map visible := by
    rw [Option.map_map]
    congr 1
    funext entry
    simp
  rw [shown, shown, alike.advanced k]

theorem Alike.mem_iff (alike : Alike hour s t) (k : HashKey) : k ∈ s.cache ↔ k ∈ t.cache := by
  have shown := congrArg Option.isSome (alike.visible_eq k)
  rw [Option.isSome_map, Option.isSome_map] at shown
  rw [← Finmap.lookup_isSome, ← Finmap.lookup_isSome, shown]

theorem Alike.iterationOrder_iff (alike : Alike hour s t) (order : List HashKey) :
    IterationOrder s.cache order ↔ IterationOrder t.cache order := by
  simp only [IterationOrder, alike.mem_iff]

theorem Alike.picked_eq {ι : Type} (alike : Alike hour s t)
    (pick : HashKey → KnownTimeseriesEntry → Option ι) :
    picked hour pick s.cache = picked hour pick t.cache := by
  funext k
  have split (cache : KnownTimeseriesCache) : picked hour pick cache k =
      ((cache.lookup k).map (advanceRingBuffer · hour)).bind (pick k) := by
    rw [picked, Option.bind_map]
    rfl
  rw [split, split, alike.advanced k]

private theorem advanced_afterScan {ι : Type} {pick : HashKey → KnownTimeseriesEntry → Option ι}
    {s : Observed} {scan : Scan ι} (tracks : Tracks s) (effect : ScanEffect hour pick s.cache scan)
    (k : HashKey) : (scan.cache.lookup k).map (advanceRingBuffer · hour) =
      (s.cache.lookup k).map (advanceRingBuffer · hour) := by
  rw [effect.lookup k]
  split
  · exact map_twice tracks (Nat.le_refl hour) k
  · rfl

theorem alike_afterScan {ι : Type} {pick : HashKey → KnownTimeseriesEntry → Option ι}
    {s t : Observed} {scan : Scan ι} (tracks : Tracks s) (tracks' : Tracks t)
    (effect : ScanEffect hour pick s.cache scan) (left : t.cache = scan.cache) :
    Alike hour t s where
  tracks := tracks'
  tracks' := tracks
  advanced k := by rw [left, advanced_afterScan tracks effect k]

/-- The second cache reaches a state like the first one's. -/
private def Follows (hour : Nat) (next next' : Option Observed) : Prop :=
  (next = none ∧ next' = none) ∨
    ∃ s t, next = some s ∧ next' = some t ∧ Alike hour s t

private theorem follows_of_some {op : CacheOp} {s' t' : Observed} (alike : Alike hour s t)
    (edge : step s op = some s') (edge' : step t op = some t')
    (advanced : ∀ k, (s'.cache.lookup k).map (advanceRingBuffer · hour) =
      (t'.cache.lookup k).map (advanceRingBuffer · hour)) :
    Follows hour (step s op) (step t op) := by
  have tracks := step_tracks alike.tracks edge
  have tracks' := step_tracks alike.tracks' edge'
  exact .inr ⟨s', t', edge, edge', tracks, tracks', advanced⟩

private theorem follows_update (alike : Alike hour s t) (key : HashKey) (entry : TimeseriesEntry)
    {now : Nat} (current : now / 3600 = hour) :
    Follows hour (step s (.updateTimeseries key entry now))
      (step t (.updateTimeseries key entry now)) := by
  apply follows_of_some alike rfl rfl
  intro k
  dsimp only
  rw [lookup_updateTimeseries, lookup_updateTimeseries]
  split
  · have same := alike.advanced key
    cases found : s.cache.lookup key with
    | none =>
      cases found' : t.cache.lookup key with
      | none => rfl
      | some other => rw [found, found'] at same; cases same
    | some existing =>
      cases found' : t.cache.lookup key with
      | none => rw [found, found'] at same; cases same
      | some other =>
        rw [found, found'] at same
        have equal : advanceRingBuffer existing hour = advanceRingBuffer other hour :=
          Option.some.inj same
        simp only [current, equal]
  · exact alike.advanced k

private theorem follows_synced (alike : Alike hour s t) {s' t' : Observed} {op : CacheOp}
    (edge : step s op = some s') (edge' : step t op = some t') (marked : HashKey → Prop)
    [DecidablePred marked] (synced : Nat)
    (lookup : ∀ k, s'.cache.lookup k = if marked k then
      (s.cache.lookup k).map (fun e => { e with lastBackendSync := synced })
      else s.cache.lookup k)
    (lookup' : ∀ k, t'.cache.lookup k = if marked k then
      (t.cache.lookup k).map (fun e => { e with lastBackendSync := synced })
      else t.cache.lookup k) : Follows hour (step s op) (step t op) := by
  have commuted {u : Observed} (tracks : Tracks u) (k : HashKey) :
      ((u.cache.lookup k).map (fun e => { e with lastBackendSync := synced })).map
          (advanceRingBuffer · hour) =
        ((u.cache.lookup k).map (advanceRingBuffer · hour)).map
          (fun e => { e with lastBackendSync := synced }) := by
    cases found : u.cache.lookup k with
    | none => rfl
    | some entry =>
      simp only [Option.map_some]
      rw [advanceRingBuffer_synced (tracks k entry found)]
  apply follows_of_some alike edge edge'
  intro k
  rw [lookup k, lookup' k]
  split
  · rw [commuted alike.tracks, commuted alike.tracks', alike.advanced k]
  · exact alike.advanced k

private theorem follows_scan {ι : Type} (alike : Alike hour s t) {op : CacheOp} {now : Nat}
    {order : List HashKey} {scan scan' : Scan ι}
    {pick : HashKey → KnownTimeseriesEntry → Option ι}
    (edge : step s op = if IterationOrder s.cache order then some (afterScan s scan now) else none)
    (edge' : step t op = if IterationOrder t.cache order then some (afterScan t scan' now)
      else none)
    (effect : order.Nodup → ScanEffect hour pick s.cache scan)
    (effect' : order.Nodup → ScanEffect hour pick t.cache scan') :
    Follows hour (step s op) (step t op) := by
  have visits' := alike.iterationOrder_iff order
  by_cases visits : IterationOrder s.cache order
  · rw [if_pos visits] at edge
    rw [if_pos (visits'.mp visits)] at edge'
    apply follows_of_some alike edge edge'
    intro k
    exact (advanced_afterScan alike.tracks (effect visits.1) k).trans ((alike.advanced k).trans
      (advanced_afterScan alike.tracks' (effect' visits.1) k).symm)
  · rw [if_neg visits] at edge
    rw [if_neg (fun there => visits (visits'.mpr there))] at edge'
    exact .inl ⟨edge, edge'⟩

private theorem follows_batch {ι : Type} {time now : Nat} {op : CacheOp} {batchSize : Int}
    {order : List HashKey} {pick : HashKey → KnownTimeseriesEntry → Option ι}
    (alike : Alike (time / 3600) s t) (getBatch : KnownTimeseriesCache → Scan ι)
    (reading : clockReading op = if batchSize ≤ 0 then none else some now)
    (forward : ∀ read, clockReading op = some read → time ≤ read)
    (edge : ∀ u : Observed, step u op =
      if IterationOrder u.cache order then some (afterScan u (getBatch u.cache) now) else none)
    (empty : batchSize ≤ 0 → ∀ cache, getBatch cache = ⟨cache, [], []⟩)
    (effect : ∀ cache, order.Nodup → ScanEffect (now / 3600) pick cache (getBatch cache))
    (items : ∀ cache, order.Nodup → (getBatch cache).items =
      (order.filterMap (picked (now / 3600) pick cache)).take batchSize.toNat) :
    Follows (((clockReading op).getD time) / 3600) (step s op) (step t op) ∧
      (order.Nodup → (getBatch s.cache).items = (getBatch t.cache).items) := by
  by_cases small : batchSize ≤ 0
  · rw [reading, if_pos small]
    have untouched (cache : KnownTimeseriesCache) :
        ScanEffect (time / 3600) pick cache (getBatch cache) := by
      rw [empty small cache]
      exact ⟨by simp, by simp, by simp⟩
    refine ⟨follows_scan alike (edge s) (edge t) (fun _ => untouched s.cache)
      (fun _ => untouched t.cache), fun _ => ?_⟩
    rw [empty small, empty small]
  · rw [if_neg small] at reading
    have reached := alike.lift (Nat.div_le_div_right (c := 3600) (forward now reading))
    rw [reading]
    refine ⟨follows_scan reached (edge s) (edge t) (effect s.cache) (effect t.cache),
      fun distinct => ?_⟩
    rw [items s.cache distinct, items t.cache distinct, reached.picked_eq]

private theorem follows_step {time : Nat} (alike : Alike (time / 3600) s t) (op : CacheOp)
    (forward : ∀ now, clockReading op = some now → time ≤ now) :
    Follows (((clockReading op).getD time) / 3600) (step s op) (step t op) ∧
      (step s op ≠ none → reply s.cache op = reply t.cache op) := by
  cases op with
  | updateTimeseries key entry now =>
    have reached := alike.lift (Nat.div_le_div_right (c := 3600) (forward now rfl))
    exact ⟨follows_update reached key entry rfl, fun _ => rfl⟩
  | getActive olderThan batchSize now order =>
    obtain ⟨follows, items⟩ := follows_batch alike
      (fun cache => getActiveTimeseriesBatch cache olderThan batchSize now order) rfl forward
      (fun _ => rfl) (fun small _ => if_pos small)
      (fun cache => getActiveTimeseriesBatch_effect cache olderThan batchSize now order)
      (fun cache => getActiveTimeseriesBatch_items cache olderThan batchSize now order)
    refine ⟨follows, fun taken => congrArg Reply.active (items ?_)⟩
    by_contra repeated
    exact taken (if_neg (fun visits => repeated visits.1))
  | getInactive batchSize now order =>
    obtain ⟨follows, items⟩ := follows_batch alike
      (fun cache => getInactiveTimeseriesBatch cache batchSize now order) rfl forward
      (fun _ => rfl) (fun small _ => if_pos small)
      (fun cache => getInactiveTimeseriesBatch_effect cache batchSize now order)
      (fun cache => getInactiveTimeseriesBatch_items cache batchSize now order)
    refine ⟨follows, fun taken => congrArg Reply.inactive (items ?_)⟩
    by_contra repeated
    exact taken (if_neg (fun visits => repeated visits.1))
  | markSynced key now =>
    have reached := alike.lift (Nat.div_le_div_right (c := 3600) (forward now rfl))
    exact ⟨follows_synced reached rfl rfl (fun k => k = key) now (fun k => lookup_modify _ _ _ _)
      (fun k => lookup_modify _ _ _ _), fun _ => rfl⟩
  | markSyncedBatch keys now =>
    have reached := alike.lift (Nat.div_le_div_right (c := 3600) (forward now rfl))
    exact ⟨follows_synced reached rfl rfl (fun k => k ∈ keys) now
      (fun k => lookup_markSyncedBatch _ _ _ _) (fun k => lookup_markSyncedBatch _ _ _ _),
      fun _ => rfl⟩
  | deleteBatch keys =>
    refine ⟨follows_of_some alike rfl rfl (fun k => ?_), fun _ => rfl⟩
    dsimp only [clockReading, Option.getD_none]
    rw [deleteBatch, deleteBatch, lookup_deleteAll, lookup_deleteAll]
    split
    · rfl
    · exact alike.advanced k
  | init => exact ⟨follows_of_some alike rfl rfl (fun _ => rfl), fun _ => rfl⟩

theorem answers_eq_of_alike {time : Nat} (alike : Alike (time / 3600) s t) (ops : List CacheOp)
    (clock : (time :: readings ops).Pairwise (· ≤ ·)) : answers s ops = answers t ops := by
  induction ops generalizing time s t with
  | nil => rfl
  | cons op ops ih =>
    have forward : ∀ now, clockReading op = some now → time ≤ now := by
      intro now read
      have split : readings (op :: ops) = now :: readings ops := List.filterMap_cons_some read
      rw [split] at clock
      exact List.rel_of_pairwise_cons clock List.mem_cons_self
    have rest : ((clockReading op).getD time :: readings ops).Pairwise (· ≤ ·) := by
      cases read : clockReading op with
      | none =>
        have split : readings (op :: ops) = readings ops := List.filterMap_cons_none read
        rwa [split] at clock
      | some now =>
        have split : readings (op :: ops) = now :: readings ops := List.filterMap_cons_some read
        rw [split] at clock
        exact (List.pairwise_cons.mp clock).2
    obtain ⟨follows, replies⟩ := follows_step alike op forward
    rw [answers, answers]
    rcases follows with ⟨stuck, stuck'⟩ | ⟨s', t', edge, edge', after⟩
    · rw [stuck, stuck']
      rfl
    · have entries : (fun k => (s'.cache.lookup k).map visible) =
          fun k => (t'.cache.lookup k).map visible := funext after.visible_eq
      rw [replies (by rw [edge]; exact Option.some_ne_none s'), edge, edge', Option.bind_some,
        Option.bind_some, ih after rest, entries]

end Alike

end SignalAgent.Index.LazyAdvance
