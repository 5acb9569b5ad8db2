/- MID: SignalAgent/Telemetry/Pdata
   layer: model
   source: OTLP pdata as used by the demand filters, the metrics tracker and the trace router
   digest: Attribute maps and the telemetry batches, with metrics as a list of located points. -/

import Mathlib.Algebra.GroupWithZero.Nat
import Mathlib.Data.List.Perm.Basic
import SignalAgent.Foundations.GoText

set_option autoImplicit false
set_option relaxedAutoImplicit false

namespace SignalAgent.Telemetry.Pdata

open Foundations.GoText

/-- An attribute value; a value that is not a string is kept by its `AsString` text. -/
inductive Value where
  | string (s : GoString)
  | other (text : GoString)
  deriving DecidableEq

def Value.asString : Value → GoString
  | .string s => s
  | .other text => text

/-- `Str()` is empty on a value of another type. -/
def Value.str : Value → GoString
  | .string s => s
  | .other _ => []

/-- A `pcommon.Map`: keys keep their order and may repeat. -/
abbrev Attributes := List (GoString × Value)

namespace Attributes

def get (attrs : Attributes) (key : GoString) : Option Value := attrs.lookup key

/-- The first entry of that key is overwritten. -/
def putStr (attrs : Attributes) (key value : GoString) : Attributes :=
  match attrs with
  | [] => [(key, .string value)]
  | (k, v) :: rest =>
    if k = key then (key, .string value) :: rest else (k, v) :: putStr rest key value

/-- The first entry of that key is overwritten by the last entry, which is cut off. -/
def remove (attrs : Attributes) (key : GoString) : Attributes :=
  match attrs.findIdx? (fun kv => kv.1 == key), attrs.getLast? with
  | some i, some last => (attrs.set i last).dropLast
  | _, _ => attrs

theorem get_putStr (attrs : Attributes) (key value : GoString) :
    (attrs.putStr key value).get key = some (.string value) := by
  induction attrs with
  | nil => simp [putStr, get]
  | cons kv rest ih =>
    obtain ⟨k, v⟩ := kv
    rw [putStr]
    split
    · simp [get]
    · rename_i other
      simpa [get, List.lookup_cons, beq_eq_false_iff_ne.mpr (Ne.symm other)] using ih

theorem get_eq_none_iff (attrs : Attributes) (key : GoString) :
    attrs.get key = none ↔ ∀ kv ∈ attrs, kv.1 ≠ key := by
  induction attrs with
  | nil => simp [get]
  | cons kv rest ih =>
    unfold get at ih ⊢
    rw [List.lookup_cons]
    by_cases same : key = kv.1
    · simp [same]
    · have other : (key == kv.1) = false := beq_eq_false_iff_ne.mpr same
      simp [other, ih, Ne.symm same]

private theorem dropLast_set_perm (attrs : Attributes) (last : GoString × Value) {i : Nat}
    (inside : i < (attrs ++ [last]).length) :
    ((attrs ++ [last]).set i last).dropLast.Perm ((attrs ++ [last]).eraseIdx i) := by
  by_cases before : i < attrs.length
  · rw [List.set_append_left _ _ before, List.dropLast_concat,
      List.eraseIdx_append_of_lt_length before]
    exact (List.set_perm_cons_eraseIdx before last).trans (List.perm_append_singleton _ _).symm
  · have same : i = attrs.length := by
      rw [List.length_append, List.length_singleton] at inside
      omega
    subst same
    simp [List.eraseIdx_append_of_length_le]

theorem remove_perm (attrs : Attributes) (key : GoString) :
    (attrs.remove key).Perm (attrs.eraseP (fun kv => kv.1 == key)) := by
  unfold remove
  split
  · rename_i i last found final
    obtain ⟨front, rfl⟩ := List.getLast?_eq_some_iff.mp final
    obtain ⟨inside, -, -⟩ := List.findIdx?_eq_some_iff_getElem.mp found
    rw [List.eraseP_eq_eraseIdx, found]
    exact dropLast_set_perm front last inside
  · rename_i none
    have absent : attrs.findIdx? (fun kv => kv.1 == key) = .none := by
      cases found : attrs.findIdx? (fun kv => kv.1 == key) with
      | none => rfl
      | some i =>
        obtain ⟨inside, -, -⟩ := List.findIdx?_eq_some_iff_getElem.mp found
        have full : attrs ≠ [] := List.ne_nil_of_length_pos (Nat.zero_lt_of_lt inside)
        exact absurd (List.getLast?_eq_getLast_of_ne_nil full) (none i _ found)
    rw [List.eraseP_eq_eraseIdx, absent]

theorem get_eq_none_iff_countP (attrs : Attributes) (key : GoString) :
    attrs.get key = none ↔ attrs.countP (fun kv => kv.1 == key) = 0 := by
  rw [get_eq_none_iff, List.countP_eq_zero]
  simp only [beq_iff_eq, ne_eq]

theorem countP_eraseP {α : Type} (p : α → Bool) (xs : List α) :
    (xs.eraseP p).countP p = xs.countP p - 1 := by
  induction xs with
  | nil => rfl
  | cons x xs ih =>
    cases here : p x with
    | true => simp [here]
    | false => simp [here, ih]

theorem get_remove_eq_none_iff (attrs : Attributes) (key : GoString) :
    (attrs.remove key).get key = none ↔ attrs.countP (fun kv => kv.1 == key) ≤ 1 := by
  rw [get_eq_none_iff_countP, (remove_perm attrs key).countP_eq, countP_eraseP]
  omega

theorem eraseP_putStr (attrs : Attributes) (key value : GoString) :
    (attrs.putStr key value).eraseP (fun kv => kv.1 == key) =
      attrs.eraseP (fun kv => kv.1 == key) := by
  induction attrs with
  | nil => simp [putStr]
  | cons kv rest ih =>
    rw [putStr]
    split
    · rename_i same
      simp [same]
    · rename_i other
      simp [beq_eq_false_iff_ne.mpr other, ih]

end Attributes

structure ResourceLogs where
  attributes : Attributes
  records : List (List UInt8)
  deriving DecidableEq

abbrev Logs := List ResourceLogs

structure ResourceSpans where
  attributes : Attributes
  spans : List (List UInt8)
  deriving DecidableEq

abbrev Traces := List ResourceSpans

def spanCount (td : Traces) : Nat := (td.map (fun rs => rs.spans.length)).sum

inductive AggregationTemporality where
  | unspecified
  | delta
  | cumulative
  deriving DecidableEq

inductive MetricKind where
  | empty
  | gauge
  | sum (isMonotonic : Bool) (temporality : AggregationTemporality)
  | histogram
  | exponentialHistogram
  | summary
  deriving DecidableEq

structure NumberDataPoint where
  attributes : Attributes
  body : List UInt8
  deriving DecidableEq

structure HistogramDataPoint where
  attributes : Attributes
  explicitBounds : List UInt64
  hasSum : Bool
  body : List UInt8
  deriving DecidableEq

structure ExponentialHistogramDataPoint where
  attributes : Attributes
  body : List UInt8
  deriving DecidableEq

structure SummaryDataPoint where
  attributes : Attributes
  quantiles : List UInt64
  body : List UInt8
  deriving DecidableEq

/-- The datapoints a metric of this kind holds; a metric without data holds none. -/
def MetricKind.Point : MetricKind → Type
  | .empty => Empty
  | .gauge => NumberDataPoint
  | .sum _ _ => NumberDataPoint
  | .histogram => HistogramDataPoint
  | .exponentialHistogram => ExponentialHistogramDataPoint
  | .summary => SummaryDataPoint

def MetricKind.attributes : (kind : MetricKind) → kind.Point → Attributes
  | .empty, dp => nomatch dp
  | .gauge, dp => NumberDataPoint.attributes dp
  | .sum _ _, dp => NumberDataPoint.attributes dp
  | .histogram, dp => HistogramDataPoint.attributes dp
  | .exponentialHistogram, dp => ExponentialHistogramDataPoint.attributes dp
  | .summary, dp => SummaryDataPoint.attributes dp

/-- What naming and demand read of a metric. -/
structure MetricHeader where
  name : GoString
  unit : GoString
  kind : MetricKind
  deriving DecidableEq

structure Metric extends MetricHeader where
  points : List kind.Point

structure ScopeMetrics where
  scope : List UInt8
  metrics : List Metric

structure ResourceMetrics where
  attributes : Attributes
  scopeMetrics : List ScopeMetrics

abbrev Metrics := List ResourceMetrics

/-- A datapoint with everything above it in the batch. -/
structure Located where
  resource : Attributes
  scope : List UInt8
  header : MetricHeader
  point : header.kind.Point

def Located.attributes (p : Located) : Attributes := p.header.kind.attributes p.point

def Metric.located (m : Metric) (resource : Attributes) (scope : List UInt8) : List Located :=
  m.points.map (fun dp => ⟨resource, scope, m.toMetricHeader, dp⟩)

def ScopeMetrics.located (sm : ScopeMetrics) (resource : Attributes) : List Located :=
  sm.metrics.flatMap (fun m => m.located resource sm.scope)

def ResourceMetrics.located (rm : ResourceMetrics) : List Located :=
  rm.scopeMetrics.flatMap (fun sm => sm.located rm.attributes)

/-- The datapoints of a batch, in order. -/
def located (md : Metrics) : List Located := md.flatMap ResourceMetrics.located

/-- `RemoveIf` with a predicate that rewrites what it keeps. -/
def removeIf {α : Type} (keep : α → Option α) (xs : List α) : List α := xs.filterMap keep

/-- Prune a batch metric by metric, dropping the scopes and resources left empty. -/
def pruneMetrics (keep : Attributes → Metric → Option Metric) (md : Metrics) : Metrics :=
  removeIf (fun rm =>
    let sms := removeIf (fun sm =>
      let metrics := removeIf (keep rm.attributes) sm.metrics
      if metrics = [] then none else some { sm with metrics := metrics }) rm.scopeMetrics
    if sms = [] then none else some { rm with scopeMetrics := sms }) md

theorem pruneMetrics_congr {keep keep' : Attributes → Metric → Option Metric} {md : Metrics}
    (same : ∀ rm ∈ md, ∀ sm ∈ rm.scopeMetrics, ∀ m ∈ sm.metrics,
      keep rm.attributes m = keep' rm.attributes m) :
    pruneMetrics keep md = pruneMetrics keep' md := by
  refine List.filterMap_congr (fun rm inBatch => ?_)
  have scopes : removeIf (fun sm : ScopeMetrics =>
        let metrics := removeIf (keep rm.attributes) sm.metrics
        if metrics = [] then none else some { sm with metrics := metrics }) rm.scopeMetrics =
      removeIf (fun sm : ScopeMetrics =>
        let metrics := removeIf (keep' rm.attributes) sm.metrics
        if metrics = [] then none else some { sm with metrics := metrics }) rm.scopeMetrics := by
    refine List.filterMap_congr (fun sm inResource => ?_)
    have metrics : removeIf (keep rm.attributes) sm.metrics =
        removeIf (keep' rm.attributes) sm.metrics :=
      List.filterMap_congr (same rm inBatch sm inResource)
    dsimp only
    rw [metrics]
  dsimp only
  rw [scopes]

private theorem flatMap_removeIf {α β : Type} (keep : α → Option α) (points : α → List β)
    (select : β → Bool) (xs : List α)
    (each : ∀ x ∈ xs, (keep x).elim [] points = (points x).filter select) :
    (removeIf keep xs).flatMap points = (xs.flatMap points).filter select := by
  induction xs with
  | nil => rfl
  | cons x xs ih =>
    have head := each x List.mem_cons_self
    have tail := ih (fun y member => each y (List.mem_cons_of_mem _ member))
    rw [List.flatMap_cons, List.filter_append, ← head, ← tail]
    cases kept : keep x with
    | none => simp [removeIf, kept]
    | some y => simp [removeIf, kept]

theorem located_pruneMetrics (keep : Attributes → Metric → Option Metric)
    (select : Located → Bool) (md : Metrics)
    (each : ∀ resource scope m, (keep resource m).elim [] (fun m => m.located resource scope) =
      (m.located resource scope).filter select) :
    located (pruneMetrics keep md) = (located md).filter select := by
  refine flatMap_removeIf _ _ select md (fun rm _ => ?_)
  have scopes := flatMap_removeIf (fun sm : ScopeMetrics =>
    let metrics := removeIf (keep rm.attributes) sm.metrics
    if metrics = [] then none else some { sm with metrics := metrics })
    (fun sm => sm.located rm.attributes) select rm.scopeMetrics (fun sm _ => by
      have metrics := flatMap_removeIf (keep rm.attributes)
        (fun m => m.located rm.attributes sm.scope) select sm.metrics
        (fun m _ => each rm.attributes sm.scope m)
      dsimp only
      split
      · rename_i none
        rw [ScopeMetrics.located, ← metrics, none]
        rfl
      · exact metrics)
  dsimp only
  split
  · rename_i none
    rw [ResourceMetrics.located, ← scopes, none]
    rfl
  · exact scopes

end SignalAgent.Telemetry.Pdata
