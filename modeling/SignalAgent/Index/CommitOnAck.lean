/- MID: SignalAgent/Index/CommitOnAck
   layer: results
   source: components/edgecontroller/timeseries_processor.go
   digest: A round commits on backend success alone iff no batch meets a negative ack. -/

import SignalAgent.Index.IndexSync

set_option autoImplicit false
set_option relaxedAutoImplicit false

namespace SignalAgent.Index.CommitOnAck

open Foundations.GoMaps Foundations.GoText
open KnownCache IndexSync

inductive IndexOp where
  | indexCreate
  | indexUpdate
  | indexDelete
  deriving DecidableEq

def opOf : IndexMessage → IndexOp
  | .indexCreate _ => .indexCreate
  | .indexUpdate _ => .indexUpdate
  | .indexDelete _ => .indexDelete

def succeeded : SendResult → Bool
  | .ok ack => ack.success
  | .error _ => false

def negativeAck : SendResult → Bool
  | .ok ack => !ack.success
  | .error _ => false

def lastSync (known : KnownTimeseriesCache) (key : HashKey) : Option Nat :=
  (known.lookup key).map KnownTimeseriesEntry.lastBackendSync

/-- A key keeps its membership in both caches and its last backend sync. -/
structure Unchanged (before after : Caches) (key : HashKey) : Prop where
  discovered : key ∈ after.discovered ↔ key ∈ before.discovered
  known : key ∈ after.known ↔ key ∈ before.known
  sync : lastSync after.known key = lastSync before.known key

/-- Some message of the round with this operation carried the key and was acked with success. -/
def Acked (round : Round) (op : IndexOp) (key : HashKey) : Prop :=
  ∃ x ∈ round.exchanges, opOf x.message = op ∧ x.message.Carries key ∧ succeeded x.reply = true

/-- Local state follows the backend: every removal and every sync mark has its successful
ack, and a message that met anything else leaves all its keys alone. -/
structure CommitsOnSuccess (start : Caches) (round : Round) : Prop where
  purged : ∀ key ∈ start.discovered, key ∉ round.caches.discovered → Acked round .indexCreate key
  deleted : ∀ key ∈ start.known, key ∉ round.caches.known → Acked round .indexDelete key
  synced : ∀ key old new, lastSync start.known key = some old →
    lastSync round.caches.known key = some new → new ≠ old → Acked round .indexUpdate key
  refused : ∀ x ∈ round.exchanges, succeeded x.reply = false →
    ∀ key, x.message.Carries key → Unchanged x.before x.after key

/-- What a commit may change, as a function of the message it follows. -/
private structure CommitOf (message : IndexMessage) (before after : Caches) : Prop where
  purged : ∀ key ∈ before.discovered, key ∉ after.discovered →
    opOf message = .indexCreate ∧ message.Carries key
  deleted : ∀ key ∈ before.known, key ∉ after.known →
    opOf message = .indexDelete ∧ message.Carries key
  synced : ∀ key old new, lastSync before.known key = some old →
    lastSync after.known key = some new → new ≠ old →
      opOf message = .indexUpdate ∧ message.Carries key

private theorem Unchanged.refl (caches : Caches) (key : HashKey) : Unchanged caches caches key :=
  ⟨Iff.rfl, Iff.rfl, rfl⟩

private theorem commitOf_refl (message : IndexMessage) (caches : Caches) :
    CommitOf message caches caches := by
  refine ⟨fun key member gone => absurd member gone, fun key member gone => absurd member gone, ?_⟩
  intro key old new before after differs
  rw [before, Option.some.injEq] at after
  exact absurd after.symm differs

private theorem mem_iff_lastSync (known : KnownTimeseriesCache) (key : HashKey) :
    key ∈ known ↔ (lastSync known key).isSome = true := by
  rw [lastSync, Option.isSome_map, Finmap.lookup_isSome]

private theorem lastSync_deleteBatch (known : KnownTimeseriesCache) (keys : List HashKey)
    (key : HashKey) :
    lastSync (deleteBatch known keys) key = if key ∈ keys then none else lastSync known key := by
  unfold lastSync deleteBatch
  rw [lookup_deleteAll]
  split <;> rfl

private theorem lastSync_markSyncedBatch (known : KnownTimeseriesCache) (keys : List HashKey)
    (now : Nat) (key : HashKey) :
    lastSync (markSyncedBatch known keys now) key =
      if key ∈ keys then (lastSync known key).map (fun _ => now) else lastSync known key := by
  unfold lastSync
  rw [lookup_markSyncedBatch]
  split <;> simp [Function.comp_def]

private theorem commitsOnSuccess_single {start before after : Caches} {message : IndexMessage}
    {reply : SendResult} {processed : Bool} (scan : ∀ key, Unchanged start before key)
    (effect : CommitOf message before after) :
    CommitsOnSuccess start ⟨after, processed, [⟨message, reply, before, after⟩]⟩ ↔
      (succeeded reply = false → ∀ key, message.Carries key → Unchanged before after key) := by
  constructor
  · intro commits failed key carried
    exact commits.refused _ List.mem_cons_self failed key carried
  · intro kept
    have acked : ∀ {op key}, opOf message = op → message.Carries key →
        ¬ Unchanged before after key →
        Acked ⟨after, processed, [⟨message, reply, before, after⟩]⟩ op key := by
      intro op key same carried changed
      refine ⟨_, List.mem_cons_self, same, carried, ?_⟩
      by_contra failed
      exact changed (kept (Bool.not_eq_true _ ▸ failed) key carried)
    refine ⟨?_, ?_, ?_, ?_⟩
    · intro key member gone
      have present := (scan key).discovered.mpr member
      obtain ⟨same, carried⟩ := effect.purged key present gone
      exact acked same carried (fun same => gone (same.discovered.mpr present))
    · intro key member gone
      have present := (scan key).known.mpr member
      obtain ⟨same, carried⟩ := effect.deleted key present gone
      exact acked same carried (fun same => gone (same.known.mpr present))
    · intro key old new first last differs
      have present : lastSync before.known key = some old := (scan key).sync.trans first
      obtain ⟨same, carried⟩ := effect.synced key old new present last differs
      refine acked same carried (fun same => differs ?_)
      have equal := same.sync
      rw [present, last, Option.some.injEq] at equal
      exact equal
    · intro x member failed key carried
      obtain rfl := List.mem_singleton.mp member
      exact kept failed key carried

private theorem commitsOnSuccess_quiet {start after : Caches} {processed : Bool}
    (scan : ∀ key, Unchanged start after key) : CommitsOnSuccess start ⟨after, processed, []⟩ := by
  refine ⟨?_, ?_, ?_, by simp⟩
  · intro key member gone
    exact absurd ((scan key).discovered.mpr member) gone
  · intro key member gone
    exact absurd ((scan key).known.mpr member) gone
  · intro key old new first last differs
    rw [(scan key).sync, first, Option.some.injEq] at last
    exact absurd last.symm differs

/-- The IndexCreate of this round, when there is one, is not answered by a negative ack. -/
def CreateReplyUsable (sendAndWaitAck : IndexMessage → SendResult) (caches : Caches)
    (order : List HashKey) : Prop :=
  let items := (getBatch caches.discovered discoveredBatchSize order).1
  items ≠ [] → negativeAck (sendAndWaitAck (createMessage items)) = false

private theorem purge_commitOf (caches : Caches) (rows : List (HashKey × TimeseriesEntry)) :
    CommitOf (createMessage (rows.map discoveredItem)) caches
      { caches with discovered := purgeBatch caches.discovered (rows.map Prod.fst) } := by
  refine ⟨?_, fun key member gone => absurd member gone, ?_⟩
  · intro key member gone
    refine ⟨rfl, (createMessage_carries rows key).mpr ?_⟩
    by_contra outside
    exact gone ((mem_purgeBatch _ _ _).mpr ⟨member, outside⟩)
  · intro key old new first last differs
    rw [first, Option.some.injEq] at last
    exact absurd last.symm differs

theorem discovered_commits_iff (sendAndWaitAck : IndexMessage → SendResult) (caches : Caches)
    (order : List HashKey) :
    CommitsOnSuccess caches (processOneDiscoveredBatch sendAndWaitAck caches order) ↔
      CreateReplyUsable sendAndWaitAck caches order := by
  unfold processOneDiscoveredBatch CreateReplyUsable getBatch
  dsimp only
  set rows := batchEntries caches.discovered discoveredBatchSize order with rows_def
  have same := Unchanged.refl caches
  by_cases empty : rows.map discoveredItem = []
  · simp only [empty, if_true, ne_eq, not_true_eq_false, false_implies, iff_true]
    exact commitsOnSuccess_quiet same
  simp only [empty, if_false, ne_eq, not_false_eq_true, true_implies]
  cases reply : sendAndWaitAck (createMessage (rows.map discoveredItem)) with
  | error e =>
    simp only [sendDiscoveredTimeseriesBatch, sendBatch, reply]
    rw [commitsOnSuccess_single same (commitOf_refl _ _)]
    exact iff_of_true (fun _ key _ => Unchanged.refl caches key) rfl
  | ok ack =>
    simp only [sendDiscoveredTimeseriesBatch, sendBatch, reply]
    rw [commitsOnSuccess_single same (purge_commitOf caches rows)]
    simp only [succeeded, negativeAck, Bool.not_eq_false']
    constructor
    · intro kept
      by_contra failed
      obtain ⟨row, member⟩ := List.exists_mem_of_ne_nil rows (by simpa using empty)
      have carried : row.1 ∈ rows.map Prod.fst := List.mem_map_of_mem member
      have present := mem_of_lookup (batchEntries_lookup member)
      have named := (createMessage_carries rows row.1).mpr carried
      have unchanged := kept (by simpa using failed) row.1 named
      exact ((mem_purgeBatch _ _ _).mp (unchanged.discovered.mpr present)).2 carried
    · intro success failed
      rw [success] at failed
      cases failed

private theorem markSynced_commitOf (caches : Caches) (active : List KnownActiveTimeseriesItem)
    (now : Nat) :
    CommitOf (updateMessage active) caches
      { caches with known :=
        markSyncedBatch caches.known (active.map KnownActiveTimeseriesItem.hashKey) now } := by
  refine ⟨fun key member gone => absurd member gone, ?_, ?_⟩
  · intro key member gone
    exact absurd ((mem_markSyncedBatch _ _ _ _).mpr member) gone
  · intro key old new first last differs
    refine ⟨rfl, (updateMessage_carries active key).mpr ?_⟩
    by_contra outside
    rw [lastSync_markSyncedBatch, if_neg outside, first, Option.some.injEq] at last
    exact differs last.symm

private theorem unchanged_markSynced_iff (caches : Caches) (keys : List HashKey) (now : Nat)
    {key : HashKey} (member : key ∈ keys) :
    Unchanged caches { caches with known := markSyncedBatch caches.known keys now } key ↔
      (key ∈ caches.known → lastSync caches.known key = some now) := by
  constructor
  · intro unchanged present
    have kept := unchanged.sync
    rw [lastSync_markSyncedBatch, if_pos member] at kept
    obtain ⟨sync, found⟩ := Option.isSome_iff_exists.mp ((mem_iff_lastSync _ _).mp present)
    rw [found, Option.map_some] at kept
    rw [found, kept]
  · intro already
    refine ⟨Iff.rfl, mem_markSyncedBatch _ _ _ _, ?_⟩
    rw [lastSync_markSyncedBatch, if_pos member]
    cases found : lastSync caches.known key with
    | none => rfl
    | some sync =>
      have present : key ∈ caches.known := (mem_iff_lastSync _ _).mpr (by rw [found]; rfl)
      rw [← found, already present]
      rfl

private theorem processActive_commits_iff (sendAndWaitAck : IndexMessage → SendResult)
    {start caches : Caches} (scan : ∀ key, Unchanged start caches key)
    (active : List KnownActiveTimeseriesItem) (now : Nat) :
    CommitsOnSuccess start (processActive sendAndWaitAck caches active now) ↔
      (active ≠ [] → negativeAck (sendAndWaitAck (updateMessage active)) = true →
        ∀ key ∈ active.map KnownActiveTimeseriesItem.hashKey,
          key ∈ caches.known → lastSync caches.known key = some now) := by
  unfold processActive
  dsimp only
  by_cases empty : active = []
  · simp only [empty, if_true, ne_eq, not_true_eq_false, false_implies, iff_true]
    exact commitsOnSuccess_quiet scan
  simp only [empty, if_false, ne_eq, not_false_eq_true, true_implies]
  cases reply : sendAndWaitAck (updateMessage active) with
  | error e =>
    simp only [sendActiveTimeseriesBatch, sendBatch, reply]
    rw [commitsOnSuccess_single scan (commitOf_refl _ _)]
    exact iff_of_true (fun _ key _ => Unchanged.refl caches key) (fun negative => by cases negative)
  | ok ack =>
    simp only [sendActiveTimeseriesBatch, sendBatch, reply]
    rw [commitsOnSuccess_single scan (markSynced_commitOf caches active now)]
    simp only [succeeded, negativeAck, Bool.not_eq_true', updateMessage_carries]
    refine imp_congr_right (fun _ => forall_congr' (fun key => ?_))
    exact imp_congr_right (fun member => unchanged_markSynced_iff caches _ now member)

private theorem acked_cons_delete_iff {keys : List HashKey} {reply : SendResult}
    {before after : Caches} {rest : Round} {op : IndexOp} {key : HashKey} :
    Acked ⟨rest.caches, true, ⟨deleteMessage keys, reply, before, after⟩ :: rest.exchanges⟩ op key ↔
      (op = .indexDelete ∧ key ∈ keys ∧ succeeded reply = true) ∨ Acked rest op key := by
  constructor
  · rintro ⟨x, sent, same, carried, acked⟩
    rcases List.mem_cons.mp sent with rfl | sent
    · exact Or.inl ⟨same.symm, (deleteMessage_carries _ _).mp carried, acked⟩
    · exact Or.inr ⟨x, sent, same, carried, acked⟩
  · rintro (⟨rfl, listed, acked⟩ | ⟨x, sent, same⟩)
    · exact ⟨_, List.mem_cons_self, rfl, (deleteMessage_carries _ _).mpr listed, acked⟩
    · exact ⟨x, List.mem_cons_of_mem _ sent, same⟩

private theorem commitsOnSuccess_cons_delete {start scanned : Caches}
    (scan : ∀ key, Unchanged start scanned key) (keys : List HashKey) {reply : SendResult}
    (success : succeeded reply = true) (rest : Round)
    (grows : ∀ key ∈ rest.caches.known, key ∉ keys) :
    CommitsOnSuccess start ⟨rest.caches, true,
        ⟨deleteMessage keys, reply, scanned,
          { scanned with known := deleteBatch scanned.known keys }⟩ :: rest.exchanges⟩ ↔
      CommitsOnSuccess { scanned with known := deleteBatch scanned.known keys } rest := by
  -- The rest of the round is judged from the caches the delete left.
  constructor
  · intro commits
    refine ⟨?_, ?_, ?_, fun x member => commits.refused x (List.mem_cons_of_mem _ member)⟩
    · intro key member gone
      have acked := commits.purged key ((scan key).discovered.mp member) gone
      rcases acked_cons_delete_iff.mp acked with ⟨op, -⟩ | acked
      · cases op
      · exact acked
    · intro key member gone
      obtain ⟨present, kept⟩ := (mem_deleteBatch _ _ _).mp member
      have acked := commits.deleted key ((scan key).known.mp present) gone
      rcases acked_cons_delete_iff.mp acked with ⟨-, listed, -⟩ | acked
      · exact absurd listed kept
      · exact acked
    · intro key old new first last differs
      have before : lastSync start.known key = some old := by
        rw [lastSync_deleteBatch] at first
        split at first
        · cases first
        · exact (scan key).sync.symm.trans first
      have acked := commits.synced key old new before last differs
      rcases acked_cons_delete_iff.mp acked with ⟨op, -⟩ | acked
      · cases op
      · exact acked
  · intro commits
    refine ⟨?_, ?_, ?_, ?_⟩
    · intro key member gone
      have acked := commits.purged key ((scan key).discovered.mpr member) gone
      exact acked_cons_delete_iff.mpr (Or.inr acked)
    · intro key member gone
      apply acked_cons_delete_iff.mpr
      by_cases listed : key ∈ keys
      · exact Or.inl ⟨rfl, listed, success⟩
      · have present := (mem_deleteBatch _ _ _).mpr ⟨(scan key).known.mpr member, listed⟩
        exact Or.inr (commits.deleted key present gone)
    · intro key old new first last differs
      have kept := grows key ((mem_iff_lastSync _ _).mpr (by rw [last]; rfl))
      have before : lastSync (deleteBatch scanned.known keys) key = some old := by
        rw [lastSync_deleteBatch, if_neg kept, (scan key).sync, first]
      exact acked_cons_delete_iff.mpr (Or.inr (commits.synced key old new before last differs))
    · intro x sent failed
      rcases List.mem_cons.mp sent with rfl | sent
      · rw [success] at failed
        cases failed
      · exact commits.refused x sent failed

private theorem mem_processActive (sendAndWaitAck : IndexMessage → SendResult) (caches : Caches)
    (active : List KnownActiveTimeseriesItem) (now : Nat) (key : HashKey) :
    key ∈ (processActive sendAndWaitAck caches active now).caches.known ↔ key ∈ caches.known := by
  unfold processActive
  split
  · rfl
  · dsimp only
    split
    · rfl
    · exact mem_markSyncedBatch _ _ _ _

private theorem lastSync_scan {ι : Type} {hour : Nat}
    {pick : HashKey → KnownTimeseriesEntry → Option ι} {before : KnownTimeseriesCache}
    {scan : Scan ι} (effect : ScanEffect hour pick before scan) (key : HashKey) :
    lastSync scan.cache key = lastSync before key := by
  unfold lastSync
  rw [effect.lookup key]
  split
  · simp [Function.comp_def]
  · rfl

private theorem readKnownBatches_unchanged (caches : Caches) (input : KnownRoundInput)
    (activeScan : input.activeOrder.Nodup) (inactiveScan : input.inactiveOrder.Nodup)
    (key : HashKey) :
    Unchanged caches { caches with known := (readKnownBatches caches.known input).known } key := by
  have first := getActiveTimeseriesBatch_effect caches.known
    ((input.thresholdNow : Int) - lastBackendSyncThresholdSeconds) knownBatchSize input.activeNow
    input.activeOrder activeScan
  have second := getInactiveTimeseriesBatch_effect
    (getActiveTimeseriesBatch caches.known
      ((input.thresholdNow : Int) - lastBackendSyncThresholdSeconds) knownBatchSize input.activeNow
      input.activeOrder).cache knownBatchSize input.inactiveNow input.inactiveOrder inactiveScan
  exact ⟨Iff.rfl, (second.mem_iff key).trans (first.mem_iff key),
    (lastSync_scan second key).trans (lastSync_scan first key)⟩

private theorem active_known (known : KnownTimeseriesCache) (input : KnownRoundInput)
    (activeScan : input.activeOrder.Nodup) {key : HashKey}
    (member : key ∈ (readKnownBatches known input).active.map KnownActiveTimeseriesItem.hashKey) :
    key ∈ known := by
  obtain ⟨item, listed, rfl⟩ := List.mem_map.mp member
  exact mem_of_mem_activeBatch activeScan listed

private theorem inactive_known (known : KnownTimeseriesCache) (input : KnownRoundInput)
    (inactiveScan : input.inactiveOrder.Nodup) {key : HashKey}
    (member : key ∈ (readKnownBatches known input).inactive) :
    key ∈ (readKnownBatches known input).known := by
  have effect := getInactiveTimeseriesBatch_effect
    (getActiveTimeseriesBatch known
      ((input.thresholdNow : Int) - lastBackendSyncThresholdSeconds) knownBatchSize input.activeNow
      input.activeOrder).cache knownBatchSize input.inactiveNow input.inactiveOrder inactiveScan
  exact (effect.mem_iff key).mpr (mem_of_mem_inactiveBatch inactiveScan member)

/-- The IndexUpdate of this round is sent: there is one, and the delete before it, if any,
was answered and not followed by the end of the stream. -/
def UpdateSent (sendAndWaitAck : IndexMessage → SendResult) (caches : Caches)
    (input : KnownRoundInput) : Prop :=
  let batches := readKnownBatches caches.known input
  batches.active ≠ [] ∧ (batches.inactive = [] ∨
    (sendAndWaitAck (deleteMessage batches.inactive)).isOk = true ∧ input.stopped = false)

/-- The IndexDelete of this round meets no negative ack, and the IndexUpdate meets one only
if marking its keys would change nothing. -/
structure KnownRepliesUsable (sendAndWaitAck : IndexMessage → SendResult) (caches : Caches)
    (input : KnownRoundInput) : Prop where
  delete : (readKnownBatches caches.known input).inactive ≠ [] →
    negativeAck (sendAndWaitAck (deleteMessage (readKnownBatches caches.known input).inactive)) =
      false
  update : UpdateSent sendAndWaitAck caches input →
    negativeAck (sendAndWaitAck (updateMessage (readKnownBatches caches.known input).active)) =
      true →
    ∀ key ∈ (readKnownBatches caches.known input).active.map KnownActiveTimeseriesItem.hashKey,
      key ∈ (readKnownBatches caches.known input).inactive ∨
        lastSync caches.known key = some input.syncedNow

private theorem delete_commitOf (caches : Caches) (keys : List HashKey) :
    CommitOf (deleteMessage keys) caches
      { caches with known := deleteBatch caches.known keys } := by
  refine ⟨fun key member gone => absurd member gone, ?_, ?_⟩
  · intro key member gone
    refine ⟨rfl, (deleteMessage_carries keys key).mpr ?_⟩
    by_contra outside
    exact gone ((mem_deleteBatch _ _ _).mpr ⟨member, outside⟩)
  · intro key old new first last differs
    rw [lastSync_deleteBatch] at last
    split at last
    · cases last
    · rw [first, Option.some.injEq] at last
      exact absurd last.symm differs

private theorem not_commits_of_negative_delete {start scanned : Caches} {keys : List HashKey}
    {reply : SendResult} {caches : Caches} {rest : List Exchange} {key : HashKey}
    (listed : key ∈ keys) (present : key ∈ scanned.known) (failed : succeeded reply = false)
    (commits : CommitsOnSuccess start ⟨caches, true,
      ⟨deleteMessage keys, reply, scanned,
        { scanned with known := deleteBatch scanned.known keys }⟩ :: rest⟩) : False := by
  have unchanged := commits.refused _ List.mem_cons_self failed key
    ((deleteMessage_carries keys key).mpr listed)
  exact ((mem_deleteBatch _ _ _).mp (unchanged.known.mpr present)).2 listed

private theorem deleteThenActive_commits_iff (sendAndWaitAck : IndexMessage → SendResult)
    {start caches : Caches} (scan : ∀ key, Unchanged start caches key)
    (active : List KnownActiveTimeseriesItem) (inactive : List HashKey) (now : Nat)
    (activeKnown : ∀ key ∈ active.map KnownActiveTimeseriesItem.hashKey, key ∈ caches.known)
    {reply : SendResult} (success : succeeded reply = true) :
    CommitsOnSuccess start
        ⟨(processActive sendAndWaitAck { caches with known := deleteBatch caches.known inactive }
            active now).caches, true,
          ⟨deleteMessage inactive, reply, caches,
            { caches with known := deleteBatch caches.known inactive }⟩ ::
            (processActive sendAndWaitAck
              { caches with known := deleteBatch caches.known inactive } active now).exchanges⟩ ↔
      (active ≠ [] → negativeAck (sendAndWaitAck (updateMessage active)) = true →
        ∀ key ∈ active.map KnownActiveTimeseriesItem.hashKey,
          key ∈ inactive ∨ lastSync caches.known key = some now) := by
  have grows : ∀ key ∈ (processActive sendAndWaitAck
      { caches with known := deleteBatch caches.known inactive } active now).caches.known,
      key ∉ inactive := by
    intro key member
    have kept := (mem_processActive _ _ _ _ _).mp member
    exact ((mem_deleteBatch _ _ _).mp kept).2
  rw [commitsOnSuccess_cons_delete scan inactive success _ grows,
    processActive_commits_iff _ (Unchanged.refl _)]
  refine imp_congr_right (fun _ => imp_congr_right (fun _ => forall_congr' (fun key =>
    imp_congr_right (fun member => ?_))))
  show (key ∈ deleteBatch caches.known inactive →
    lastSync (deleteBatch caches.known inactive) key = some now) ↔ _
  rw [mem_deleteBatch, lastSync_deleteBatch]
  have present := activeKnown key member
  by_cases gone : key ∈ inactive
  · simp [gone]
  · simp [gone, present]

private theorem updateOnly_commits_iff (sendAndWaitAck : IndexMessage → SendResult)
    {start caches : Caches} (scan : ∀ key, Unchanged start caches key)
    (active : List KnownActiveTimeseriesItem) (stopped : Bool) (now : Nat)
    (activeKnown : ∀ key ∈ active.map KnownActiveTimeseriesItem.hashKey, key ∈ caches.known) :
    CommitsOnSuccess start (processKnownBatches sendAndWaitAck caches active [] stopped now) ↔
      (active ≠ [] → negativeAck (sendAndWaitAck (updateMessage active)) = true →
        ∀ key ∈ active.map KnownActiveTimeseriesItem.hashKey,
          lastSync caches.known key = some now) := by
  unfold processKnownBatches
  dsimp only
  by_cases noUpdate : active = []
  · rw [if_pos ⟨noUpdate, rfl⟩]
    exact iff_of_true (commitsOnSuccess_quiet scan) (fun sent => absurd noUpdate sent)
  · rw [if_neg (fun both => noUpdate both.1), if_pos rfl, processActive_commits_iff _ scan]
    refine imp_congr_right (fun _ => imp_congr_right (fun _ => forall_congr' (fun key =>
      imp_congr_right (fun member => ?_))))
    exact ⟨fun already => already (activeKnown key member), fun already _ => already⟩

private theorem not_commits_of_refused_delete {sendAndWaitAck : IndexMessage → SendResult}
    {start caches : Caches} {active : List KnownActiveTimeseriesItem} {inactive : List HashKey}
    {stopped : Bool} {now : Nat} {ack : Ack} (listed : inactive ≠ [])
    (inactiveKnown : ∀ key ∈ inactive, key ∈ caches.known)
    (reply : sendAndWaitAck (deleteMessage inactive) = .ok ack) (refused : ack.success = false) :
    ¬ CommitsOnSuccess start
      (processKnownBatches sendAndWaitAck caches active inactive stopped now) := by
  intro commits
  obtain ⟨key, member⟩ := List.exists_mem_of_ne_nil inactive listed
  have failed : succeeded (.ok ack) = false := refused
  unfold processKnownBatches at commits
  dsimp only at commits
  rw [if_neg (fun both => listed both.2), if_neg listed] at commits
  simp only [sendInactiveTimeseriesBatch, sendBatch, reply] at commits
  split at commits <;>
    exact not_commits_of_negative_delete member (inactiveKnown key member) failed commits

private theorem confirmedDelete_commits_iff {sendAndWaitAck : IndexMessage → SendResult}
    {start caches : Caches} (scan : ∀ key, Unchanged start caches key)
    (active : List KnownActiveTimeseriesItem) {inactive : List HashKey} (stopped : Bool)
    (now : Nat) {ack : Ack} (listed : inactive ≠ [])
    (activeKnown : ∀ key ∈ active.map KnownActiveTimeseriesItem.hashKey, key ∈ caches.known)
    (reply : sendAndWaitAck (deleteMessage inactive) = .ok ack)
    (confirmed : ack.success = true) :
    CommitsOnSuccess start
        (processKnownBatches sendAndWaitAck caches active inactive stopped now) ↔
      (active ≠ [] → stopped = false →
        negativeAck (sendAndWaitAck (updateMessage active)) = true →
        ∀ key ∈ active.map KnownActiveTimeseriesItem.hashKey,
          key ∈ inactive ∨ lastSync caches.known key = some now) := by
  have positive : succeeded (.ok ack) = true := confirmed
  unfold processKnownBatches
  dsimp only
  rw [if_neg (fun both => listed both.2), if_neg listed]
  simp only [sendInactiveTimeseriesBatch, sendBatch, reply]
  split
  · rename_i paused
    rw [commitsOnSuccess_single scan (delete_commitOf _ _)]
    refine iff_of_true (fun failed => absurd positive (by simp [failed])) (fun _ running => ?_)
    simp [running] at paused
  · rename_i running
    have streaming : active ≠ [] → stopped = false := fun sent =>
      Bool.eq_false_iff.mpr (fun ended => running ⟨sent, ended⟩)
    rw [deleteThenActive_commits_iff sendAndWaitAck scan active inactive now activeKnown positive]
    exact ⟨fun already sent _ => already sent, fun already sent => already sent (streaming sent)⟩

private theorem processKnownBatches_commits_iff (sendAndWaitAck : IndexMessage → SendResult)
    {start caches : Caches} (scan : ∀ key, Unchanged start caches key)
    (active : List KnownActiveTimeseriesItem) (inactive : List HashKey) (stopped : Bool) (now : Nat)
    (activeKnown : ∀ key ∈ active.map KnownActiveTimeseriesItem.hashKey, key ∈ caches.known)
    (inactiveKnown : ∀ key ∈ inactive, key ∈ caches.known) :
    CommitsOnSuccess start
        (processKnownBatches sendAndWaitAck caches active inactive stopped now) ↔
      (inactive ≠ [] → negativeAck (sendAndWaitAck (deleteMessage inactive)) = false) ∧
      (active ≠ [] ∧ (inactive = [] ∨
          (sendAndWaitAck (deleteMessage inactive)).isOk = true ∧ stopped = false) →
        negativeAck (sendAndWaitAck (updateMessage active)) = true →
        ∀ key ∈ active.map KnownActiveTimeseriesItem.hashKey,
          key ∈ inactive ∨ lastSync caches.known key = some now) := by
  by_cases noDelete : inactive = []
  · subst noDelete
    rw [updateOnly_commits_iff sendAndWaitAck scan active stopped now activeKnown]
    simp
  cases reply : sendAndWaitAck (deleteMessage inactive) with
  | error e =>
    unfold processKnownBatches
    dsimp only
    rw [if_neg (fun both => noDelete both.2), if_neg noDelete]
    simp only [sendInactiveTimeseriesBatch, sendBatch, reply]
    rw [commitsOnSuccess_single scan (commitOf_refl _ _)]
    refine iff_of_true (fun _ key _ => Unchanged.refl caches key) ⟨fun _ => rfl, ?_⟩
    rintro ⟨-, none | ⟨answered, -⟩⟩
    · exact absurd none noDelete
    · cases answered
  | ok ack =>
    cases success : ack.success with
    | false =>
      refine iff_of_false (not_commits_of_refused_delete noDelete inactiveKnown reply success)
        (fun usable => ?_)
      have negative := usable.1 noDelete
      simp [negativeAck, success] at negative
    | true =>
      have notNegative : negativeAck (.ok ack) = false := by simp [negativeAck, success]
      rw [confirmedDelete_commits_iff scan active stopped now noDelete activeKnown reply success]
      constructor
      · intro already
        refine ⟨fun _ => notNegative, ?_⟩
        rintro ⟨sent, none | ⟨-, running⟩⟩
        · exact absurd none noDelete
        · exact already sent running
      · intro usable sent running
        exact usable.2 ⟨sent, Or.inr ⟨rfl, running⟩⟩

theorem known_commits_iff (sendAndWaitAck : IndexMessage → SendResult) (caches : Caches)
    (input : KnownRoundInput) (activeScan : input.activeOrder.Nodup)
    (inactiveScan : input.inactiveOrder.Nodup) :
    CommitsOnSuccess caches (processOneKnownBatch sendAndWaitAck caches input) ↔
      KnownRepliesUsable sendAndWaitAck caches input := by
  have scan := readKnownBatches_unchanged caches input activeScan inactiveScan
  unfold processOneKnownBatch
  rw [processKnownBatches_commits_iff sendAndWaitAck scan]
  · simp only [(scan _).sync]
    exact ⟨fun usable => ⟨usable.1, usable.2⟩, fun usable => ⟨usable.delete, usable.update⟩⟩
  · intro key member
    exact (scan key).known.mpr (active_known caches.known input activeScan member)
  · intro key member
    exact inactive_known caches.known input inactiveScan member

/-- For every content of the caches and every reply, the rounds commit on backend success
alone exactly when no batch they commit is answered by a negative ack. -/
theorem commits_on_success_iff_replies_usable (sendAndWaitAck : IndexMessage → SendResult)
    (caches : Caches) (order : List HashKey) (input : KnownRoundInput)
    (activeScan : IterationOrder caches.known input.activeOrder)
    (inactiveScan : IterationOrder caches.known input.inactiveOrder) :
    (CommitsOnSuccess caches (processOneDiscoveredBatch sendAndWaitAck caches order) ↔
        CreateReplyUsable sendAndWaitAck caches order) ∧
      (CommitsOnSuccess caches (processOneKnownBatch sendAndWaitAck caches input) ↔
        KnownRepliesUsable sendAndWaitAck caches input) :=
  ⟨discovered_commits_iff sendAndWaitAck caches order,
    known_commits_iff sendAndWaitAck caches input activeScan.1 inactiveScan.1⟩

/-- One announced series and one series without samples. -/
def twoSeries : Caches where
  discovered := Finmap.singleton (HashKey.repeated 1) ⟨lit "up", [], 1⟩
  known := Finmap.singleton (HashKey.repeated 2) (newEntry ⟨lit "down", [], 0⟩ 0)

def oneKnownRound : KnownRoundInput :=
  ⟨7200, 7200, 7200, 7200, [HashKey.repeated 2], [HashKey.repeated 2], false⟩

theorem accepting_backend_commits :
    (IterationOrder twoSeries.known oneKnownRound.activeOrder ∧
        (readKnownBatches twoSeries.known oneKnownRound).inactive = [HashKey.repeated 2]) ∧
      CommitsOnSuccess twoSeries (processOneDiscoveredBatch (fun _ => .ok ⟨true, []⟩) twoSeries
        [HashKey.repeated 1]) ∧
      CommitsOnSuccess twoSeries
        (processOneKnownBatch (fun _ => .ok ⟨true, []⟩) twoSeries oneKnownRound) := by
  have both := commits_on_success_iff_replies_usable (fun _ => .ok ⟨true, []⟩) twoSeries
    [HashKey.repeated 1] oneKnownRound (by decide) (by decide)
  refine ⟨by decide, both.1.mpr (fun _ => rfl), both.2.mpr ⟨fun _ => rfl, ?_⟩⟩
  intro _ negative
  cases negative

/-- The backend refuses an IndexCreate and the agent purges the series all the same. -/
theorem refused_create_is_purged :
    HashKey.repeated 1 ∈ twoSeries.discovered ∧
      HashKey.repeated 1 ∉ (processOneDiscoveredBatch (fun _ => .ok ⟨false, lit "index full"⟩)
        twoSeries [HashKey.repeated 1]).caches.discovered ∧
      ¬ CommitsOnSuccess twoSeries (processOneDiscoveredBatch
        (fun _ => .ok ⟨false, lit "index full"⟩) twoSeries [HashKey.repeated 1]) := by
  refine ⟨by decide, by decide, ?_⟩
  rw [discovered_commits_iff]
  intro usable
  exact absurd (usable (by decide)) (by decide)

end SignalAgent.Index.CommitOnAck
