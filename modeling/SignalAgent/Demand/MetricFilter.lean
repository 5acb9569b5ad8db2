/- MID: SignalAgent/Demand/MetricFilter
   layer: model
   source: components/demandfilter/processor.go, components/demandfilter/selectors.go
   digest: Name mode and selector mode of the metric demand filter, with its compiled index. -/

import SignalAgent.Selectors.SelectorMatch
import SignalAgent.Telemetry.SeriesLabels

set_option autoImplicit false
set_option relaxedAutoImplicit false

namespace SignalAgent.Demand.MetricFilter

open Foundations.GoMaps Foundations.GoText
open Selectors.SelectorMatch
open Telemetry.Pdata Telemetry.SeriesLabels

def nameLabel : GoString := lit "__name__"

/-- The labels that exist only after remote-write translation. -/
def ignoredLabels : List GoString := [lit "le", lit "quantile"]

structure CompiledSelector where
  nameMatchers : List Matcher
  labelMatchers : List Matcher
  deriving DecidableEq

def CompiledSelector.matchesName (R : GoRuntime) (cs : CompiledSelector) (name : GoString) : Bool :=
  cs.nameMatchers.all (fun m => m.matchValue R name)

structure CompiledSelectorSet where
  byName : GoMap GoString (List CompiledSelector)
  scan : List CompiledSelector
  deriving DecidableEq

def CompiledSelectorSet.empty (set : CompiledSelectorSet) : Bool :=
  set.byName.keys.card = 0 && set.scan.length = 0

def CompiledSelectorSet.candidatesFor (R : GoRuntime) (set : CompiledSelectorSet)
    (familyNames : List GoString) : List CompiledSelector :=
  familyNames.flatMap (fun n =>
    index set.byName [] n ++ set.scan.filter (fun cs => cs.matchesName R n))

def compileSelector (sel : Selector) : CompiledSelector where
  nameMatchers := sel.matchers.filter (fun m => m.name = nameLabel)
  labelMatchers := sel.matchers.filter (fun m => m.name ≠ nameLabel ∧ m.name ∉ ignoredLabels)

/-- The one exact name a selector is pinned to, if its only name matcher is an equality. -/
def CompiledSelector.pinnedName (cs : CompiledSelector) : Option GoString :=
  match cs.nameMatchers with
  | [m] => if m.op = .eq then some m.value else none
  | _ => none

def CompiledSelectorSet.add (set : CompiledSelectorSet) (cs : CompiledSelector) :
    CompiledSelectorSet :=
  match cs.pinnedName with
  | some name => { set with byName := set.byName.insert name (index set.byName [] name ++ [cs]) }
  | none => { set with scan := set.scan ++ [cs] }

/-- A selector that does not parse is skipped. -/
def CompiledSelectorSet.addRaw (R : GoRuntime) (set : CompiledSelectorSet) (s : GoString) :
    CompiledSelectorSet :=
  match parse R s with
  | .ok sel => set.add (compileSelector sel)
  | .error _ => set

def compileSelectors (R : GoRuntime) (raw : List GoString) : CompiledSelectorSet :=
  raw.foldl (CompiledSelectorSet.addRaw R) ⟨∅, []⟩

def familyNames (kind : MetricKind) (base : GoString) : List GoString :=
  match kind with
  | .histogram => [base ++ lit "_bucket", base ++ lit "_sum", base ++ lit "_count"]
  | .summary => [base, base ++ lit "_sum", base ++ lit "_count"]
  | _ => [base]

/-- The two-level lookup: point attributes in the scratch map, then the resource view. -/
def seriesValue (scratch resLabels : LabelMap) (name : GoString) : GoString :=
  match scratch.lookup name with
  | some v => v
  | none => index resLabels [] name

def matchDP (R : GoRuntime) (cands : List CompiledSelector) (resLabels : LabelMap)
    (attrs : Attributes) : Bool :=
  let scratch := putAttributes R ∅ attrs
  cands.any (fun cs =>
    cs.labelMatchers.all (fun lm => lm.matchValue R (seriesValue scratch resLabels lm.name)))

/-- The metric with its surviving datapoints, or nothing if it is dropped. -/
def filterMetricDatapoints (P : Platform) (set : CompiledSelectorSet) (resLabels : LabelMap)
    (m : Metric) : Option Metric :=
  let cands := set.candidatesFor P.toGoRuntime
    (familyNames m.kind (baseName P m.toMetricHeader))
  if cands = [] then none
  -- A candidate without label matchers demands every series of the metric.
  else if cands.any (fun cs => cs.labelMatchers.isEmpty) then some m
  else
    let dps := m.points.filter (fun dp =>
      matchDP P.toGoRuntime cands resLabels (m.kind.attributes dp))
    if dps.length > 0 then some { m with points := dps } else none

def filterBySelectors (P : Platform) (set : CompiledSelectorSet) (md : Metrics) : Metrics :=
  pruneMetrics (fun resource m =>
    filterMetricDatapoints P set (resourceLabelMap P.toGoRuntime resource) m) md

/-- The demand set is a set of names; only membership is read. -/
def isMetricDemanded (P : Platform) (demands : List GoString) (m : MetricHeader) : Bool :=
  let base := baseName P m
  match m.kind with
  | .gauge | .sum _ _ | .exponentialHistogram => base ∈ demands
  | .histogram =>
    base ++ lit "_bucket" ∈ demands || base ++ lit "_sum" ∈ demands ||
      base ++ lit "_count" ∈ demands
  | .summary => base ∈ demands || base ++ lit "_sum" ∈ demands || base ++ lit "_count" ∈ demands
  | .empty => false

def filterByNames (P : Platform) (demands : List GoString) (md : Metrics) : Metrics :=
  pruneMetrics (fun _ m =>
    if isMetricDemanded P demands m.toMetricHeader then some m else none) md

/-- The compiled-selector cache of the processor. -/
structure SelectorCache where
  selCachedKey : GoString
  selCachedSet : Option CompiledSelectorSet

def SelectorCache.initial : SelectorCache := ⟨[], none⟩

def parsedSelectors (R : GoRuntime) (cache : SelectorCache) (raw : List GoString) :
    CompiledSelectorSet × SelectorCache :=
  let key := join raw [0]
  match cache.selCachedSet with
  | some set =>
    if key = cache.selCachedKey then (set, cache)
    else (compileSelectors R raw, ⟨key, some (compileSelectors R raw)⟩)
  | none => (compileSelectors R raw, ⟨key, some (compileSelectors R raw)⟩)

/-- What a call hands to the next consumer, if it calls it at all. -/
def consumeSelectorMode (P : Platform) (cache : SelectorCache) (raw : List GoString)
    (md : Metrics) : Option Metrics × SelectorCache :=
  let parsed := parsedSelectors P.toGoRuntime cache raw
  if parsed.1.empty then (none, parsed.2) else (some (filterBySelectors P parsed.1 md), parsed.2)

def consumeNameMode (P : Platform) (demands : List GoString) (md : Metrics) : Option Metrics :=
  if demands = [] then none else some (filterByNames P demands md)

/-- A whole call against one demand snapshot. `selectorProvider` says whether the extension
offers metric selectors. -/
def consumeMetrics (P : Platform) (selectorProvider : Bool) (cache : SelectorCache)
    (selectors demands : List GoString) (md : Metrics) : Option Metrics × SelectorCache :=
  if selectorProvider ∧ selectors ≠ [] then consumeSelectorMode P cache selectors md
  else (consumeNameMode P demands md, cache)

theorem matchesName_of_pinned (R : GoRuntime) {cs : CompiledSelector} {name : GoString}
    (pinned : cs.pinnedName = some name) (n : GoString) :
    cs.matchesName R n = true ↔ n = name := by
  unfold CompiledSelector.pinnedName at pinned
  split at pinned
  · rename_i m only
    simp only [Option.ite_none_right_eq_some, Option.some.injEq] at pinned
    simp [CompiledSelector.matchesName, only, Matcher.matchValue, pinned.1, pinned.2]
  · cases pinned

theorem mem_candidatesFor_add (R : GoRuntime) (set : CompiledSelectorSet)
    (cs cand : CompiledSelector) (n : GoString) :
    cand ∈ (set.add cs).candidatesFor R [n] ↔
      cand ∈ set.candidatesFor R [n] ∨ cand = cs ∧ cs.matchesName R n = true := by
  unfold CompiledSelectorSet.add
  cases pinned : cs.pinnedName with
  | some name =>
    have accepts := matchesName_of_pinned R pinned n
    simp only [CompiledSelectorSet.candidatesFor, List.flatMap_cons, List.flatMap_nil,
      List.append_nil, List.mem_append, index, lookup_insert_eq, accepts]
    by_cases same : n = name
    · subst same
      simp only [if_true, Option.getD_some, List.mem_append, List.mem_singleton, and_true]
      exact or_right_comm
    · simp [same]
  | none =>
    simp only [CompiledSelectorSet.candidatesFor, List.flatMap_cons, List.flatMap_nil,
      List.append_nil, List.mem_append, List.filter_append, List.mem_filter, List.mem_singleton]
    constructor
    · rintro (found | ⟨found, accepted⟩ | ⟨rfl, accepted⟩)
      · exact Or.inl (Or.inl found)
      · exact Or.inl (Or.inr ⟨found, accepted⟩)
      · exact Or.inr ⟨rfl, accepted⟩
    · rintro ((found | found) | ⟨rfl, accepted⟩)
      · exact Or.inl found
      · exact Or.inr (Or.inl found)
      · exact Or.inr (Or.inr ⟨rfl, accepted⟩)

theorem compileSelectors_concat (R : GoRuntime) (raw : List GoString) (s : GoString) :
    compileSelectors R (raw ++ [s]) = (compileSelectors R raw).addRaw R s := by
  simp [compileSelectors, List.foldl_append]

theorem mem_candidatesFor_compileSelectors (R : GoRuntime) (raw : List GoString)
    (cand : CompiledSelector) (names : List GoString) :
    cand ∈ (compileSelectors R raw).candidatesFor R names ↔
      ∃ s ∈ raw, ∃ sel, parse R s = .ok sel ∧ cand = compileSelector sel ∧
        ∃ n ∈ names, cand.matchesName R n = true := by
  have single : ∀ n, cand ∈ (compileSelectors R raw).candidatesFor R [n] ↔
      ∃ s ∈ raw, ∃ sel, parse R s = .ok sel ∧ cand = compileSelector sel ∧
        cand.matchesName R n = true := by
    intro n
    induction raw using List.reverseRecOn with
    | nil => simp [compileSelectors, CompiledSelectorSet.candidatesFor, index]
    | append_singleton raw s ih =>
      rw [compileSelectors_concat, CompiledSelectorSet.addRaw]
      cases parsed : parse R s with
      | error e =>
        rw [ih]
        simp [or_and_right, exists_or, parsed]
      | ok sel =>
        simp only [mem_candidatesFor_add, ih, List.mem_append, List.mem_singleton, or_and_right,
          exists_or, exists_eq_left, parsed, Except.ok.injEq, exists_eq_left']
        refine or_congr_right (and_congr_right ?_)
        rintro rfl
        rfl
  have split : cand ∈ (compileSelectors R raw).candidatesFor R names ↔
      ∃ n ∈ names, cand ∈ (compileSelectors R raw).candidatesFor R [n] := by
    simp [CompiledSelectorSet.candidatesFor, List.mem_flatMap]
  rw [split]
  constructor
  · rintro ⟨n, listed, found⟩
    obtain ⟨s, member, sel, parsed, same, accepted⟩ := (single n).mp found
    exact ⟨s, member, sel, parsed, same, n, listed, accepted⟩
  · rintro ⟨s, member, sel, parsed, same, n, listed, accepted⟩
    exact ⟨n, listed, (single n).mpr ⟨s, member, sel, parsed, same, accepted⟩⟩

end SignalAgent.Demand.MetricFilter
