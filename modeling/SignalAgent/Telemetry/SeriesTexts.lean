/- MID: SignalAgent/Telemetry/SeriesTexts
   layer: results
   source: components/metricstracker/processor.go, internal/promnaming/labels.go,
     internal/promnaming/promnaming.go
   digest: The texts of each tracked series by the attributes they come from, and when all of
     them are valid UTF-8. -/

import SignalAgent.Foundations.Utf8
import SignalAgent.Telemetry.SeriesTracker

set_option autoImplicit false
set_option relaxedAutoImplicit false

namespace SignalAgent.Telemetry.SeriesTexts

open Foundations.GoMaps Foundations.GoText Foundations.Utf8
open Pdata SeriesLabels SeriesTracker

/-- Which of its series a datapoint stands for. -/
inductive Part where
  | whole
  | bucket (bound : UInt64)
  | lastBucket
  | quantile (quantile : UInt64)
  | sum
  | count
  deriving DecidableEq

namespace Part

def suffix : Part → GoString
  | whole | quantile _ => []
  | bucket _ | lastBucket => lit "_bucket"
  | sum => lit "_sum"
  | count => lit "_count"

def extra (R : GoRuntime) : Part → Option (GoString × GoString)
  | bucket bound => some (lit "le", R.formatFloat bound)
  | lastBucket => some (lit "le", lit "+Inf")
  | quantile q => some (lit "quantile", R.formatFloat q)
  | whole | sum | count => none

/-- The label name an attribute cannot provide for this part. -/
def label : Part → Option GoString
  | bucket _ | lastBucket => some (lit "le")
  | quantile _ => some (lit "quantile")
  | whole | sum | count => none

theorem label_eq (R : GoRuntime) (part : Part) : part.label = (part.extra R).map Prod.fst := by
  cases part <;> rfl

theorem label_ne_synthesized (part : Part) {name : GoString}
    (synthetic : name = lit "job" ∨ name = lit "instance") : part.label ≠ some name := by
  have cases : part.label = none ∨ part.label = some (lit "le") ∨
      part.label = some (lit "quantile") := by
    cases part <;> simp [label]
  rcases cases with label | label | label <;> rw [label] <;>
    rcases synthetic with rfl | rfl <;> decide

theorem valid_suffix (part : Part) : Valid part.suffix := by
  cases part with
  | whole | quantile q => exact .nil
  | bucket bound | lastBucket =>
    show Valid (lit "_bucket")
    decide
  | sum | count => decide

theorem normalize_extra {R : GoRuntime} {part : Part} {name value : GoString}
    (added : part.extra R = some (name, value)) : normalizeLabelName R name = name := by
  cases part <;> cases added <;> rfl

end Part

def partsOf : (kind : MetricKind) → kind.Point → List Part
  | .empty, dp => nomatch dp
  | .gauge, _ | .sum _ _, _ | .exponentialHistogram, _ => [.whole]
  | .histogram, dp =>
    (HistogramDataPoint.explicitBounds dp).map Part.bucket ++ [.lastBucket] ++
      (if HistogramDataPoint.hasSum dp then [.sum] else []) ++ [.count]
  | .summary, dp => (SummaryDataPoint.quantiles dp).map Part.quantile ++ [.sum, .count]

def partSeries (P : Platform) (q : Located × Part) : Series :=
  processPromSeries P.toGoRuntime (baseName P q.1.header ++ q.2.suffix) q.1.resource
    q.1.attributes (q.2.extra P.toGoRuntime).toList

/-- Every datapoint of a batch with each of its parts, in the order they are tracked. -/
def batchParts (md : Metrics) : List (Located × Part) :=
  (located md).flatMap (fun p => (partsOf p.header.kind p.point).map (fun part => (p, part)))

private theorem seriesOf_eq (P : Platform) (p : Located) :
    seriesOf P p = (partsOf p.header.kind p.point).map (fun part => partSeries P (p, part)) := by
  obtain ⟨resource, scope, ⟨name, unit, kind⟩, point⟩ := p
  cases kind with
  | empty => exact nomatch point
  | gauge | sum monotonic temporality | exponentialHistogram =>
    simp [seriesOf, pointSeries, partsOf, partSeries, Part.suffix, Part.extra, Located.attributes,
      MetricKind.attributes]
  | histogram =>
    simp only [seriesOf, pointSeries, partsOf, histogramSeries, List.map_append, List.map_map]
    congr 1
    congr 1
    split <;> rfl
  | summary =>
    simp [seriesOf, pointSeries, partsOf, summarySeries, partSeries, Part.suffix, Part.extra,
      Located.attributes, MetricKind.attributes]

theorem processBatch_eq_parts (P : Platform) (md : Metrics) :
    processBatch P md = (batchParts md).map (partSeries P) := by
  rw [processBatch_eq, batchParts, List.map_flatMap]
  congr 1
  funext p
  rw [seriesOf_eq, List.map_map]
  rfl

section Lookup

variable (R : GoRuntime)

/-- The attribute is the last one of its label name. -/
def Shown (attrs : Attributes) (kv : GoString × Value) : Prop :=
  ∃ front back, attrs = front ++ kv :: back ∧
    ∀ later ∈ back, normalizeLabelName R later.1 ≠ normalizeLabelName R kv.1

theorem shown_concat (attrs : Attributes) (last kv : GoString × Value) :
    Shown R (attrs ++ [last]) kv ↔
      kv = last ∨ (Shown R attrs kv ∧ normalizeLabelName R last.1 ≠ normalizeLabelName R kv.1) := by
  constructor
  · rintro ⟨front, back, split, hidden⟩
    rcases List.eq_nil_or_concat' back with rfl | ⟨back, final, rfl⟩
    · exact Or.inl (List.cons.inj (List.append_inj' split rfl).2).1.symm
    · rw [← List.cons_append, ← List.append_assoc] at split
      obtain ⟨rest, same⟩ := List.append_inj' split rfl
      obtain rfl := (List.cons.inj same).1
      refine Or.inr ⟨⟨front, back, rest, ?_⟩, hidden last (by simp)⟩
      exact fun later member => hidden later (List.mem_append_left _ member)
  · rintro (rfl | ⟨⟨front, back, rfl, hidden⟩, other⟩)
    · exact ⟨attrs, [], rfl, by simp⟩
    · refine ⟨front, back ++ [last], by simp, ?_⟩
      intro later member
      rcases List.mem_append.mp member with before | final
      · exact hidden later before
      · rw [List.mem_singleton.mp final]
        exact other

private theorem lookup_eq_some_iff (attrs : Attributes) (name value : GoString) :
    (putAttributes R ∅ attrs).lookup name = some value ↔
      ∃ kv, Shown R attrs kv ∧ normalizeLabelName R kv.1 = name ∧ kv.2.asString = value := by
  induction attrs using List.reverseRecOn with
  | nil => simp [putAttributes, Shown]
  | append_singleton attrs last ih =>
    rw [lookup_putAttributes_concat]
    by_cases same : name = normalizeLabelName R last.1
    · rw [if_pos same]
      constructor
      · intro found
        exact ⟨last, (shown_concat R attrs last last).mpr (Or.inl rfl), same.symm,
          Option.some.inj found⟩
      · rintro ⟨kv, shown, named, rfl⟩
        rcases (shown_concat R attrs last kv).mp shown with rfl | ⟨-, other⟩
        · rfl
        · exact absurd (same.symm.trans named.symm) other
    · rw [if_neg same, ih]
      constructor
      · rintro ⟨kv, shown, named, valued⟩
        have other : normalizeLabelName R last.1 ≠ normalizeLabelName R kv.1 := by
          rw [named]
          exact Ne.symm same
        exact ⟨kv, (shown_concat R attrs last kv).mpr (Or.inr ⟨shown, other⟩), named, valued⟩
      · rintro ⟨kv, shown, named, valued⟩
        rcases (shown_concat R attrs last kv).mp shown with rfl | ⟨older, -⟩
        · exact absurd named.symm same
        · exact ⟨kv, older, named, valued⟩

end Lookup

/-- All attributes a datapoint is labelled with; those of the point come last. -/
def labelling (p : Located) : Attributes := p.resource ++ p.attributes

theorem lookup_partSeries (P : Platform) (q : Located × Part) (name value : GoString) :
    (partSeries P q).labels.lookup name = some value ↔
      q.2.extra P.toGoRuntime = some (name, value) ∨
        (q.2.label ≠ some name ∧
          ((∃ kv, Shown P.toGoRuntime (labelling q.1) kv ∧
              normalizeLabelName P.toGoRuntime kv.1 = name ∧ kv.2.asString = value) ∨
            (∀ kv ∈ labelling q.1, normalizeLabelName P.toGoRuntime kv.1 ≠ name) ∧
              synthesized q.1.resource name = some value)) := by
  have base : (buildSeriesLabels P.toGoRuntime q.1.resource q.1.attributes []).lookup name =
      some value ↔ (∃ kv, Shown P.toGoRuntime (labelling q.1) kv ∧
          normalizeLabelName P.toGoRuntime kv.1 = name ∧ kv.2.asString = value) ∨
        (∀ kv ∈ labelling q.1, normalizeLabelName P.toGoRuntime kv.1 ≠ name) ∧
          synthesized q.1.resource name = some value := by
    have joined : putAttributes P.toGoRuntime (putAttributes P.toGoRuntime ∅ q.1.resource)
        q.1.attributes = putAttributes P.toGoRuntime ∅ (labelling q.1) :=
      (List.foldl_append ..).symm
    rw [buildSeriesLabels, List.foldl_nil, joined, lookup_addSynthesizedJobInstance,
      ← lookup_eq_some_iff, ← lookup_putAttributes_eq_none, Option.or_eq_some_iff]
  rw [← base, Part.label_eq P.toGoRuntime, partSeries, processPromSeries]
  dsimp only
  cases added : q.2.extra P.toGoRuntime with
  | none => simp
  | some extra =>
    obtain ⟨label, shown⟩ := extra
    rw [Option.toList_some, lookup_buildSeriesLabels_single, Part.normalize_extra added]
    by_cases same : name = label
    · simp [same]
    · simp [same, Ne.symm same]

/-- What the text routines outside the repository promise: the namer escapes to legacy metric
names, and formatted numbers are plain text. -/
structure WritesValid (P : Platform) : Prop where
  names : ∀ name unit type built, P.buildName name unit type = some built → Valid built
  floats : ∀ bits, Valid (P.formatFloat bits)

/-- Name and labels of a series are valid texts. -/
def ValidSeries (s : Series) : Prop :=
  Valid s.name ∧ ∀ name value, s.labels.lookup name = some value → Valid name ∧ Valid value

/-- The texts of the datapoint that reach this series are valid: the raw name where the namer
refuses it, each shown attribute value that the part does not replace, and the synthesized labels
where no attribute provides them. -/
structure CleanPart (P : Platform) (q : Located × Part) : Prop where
  name : P.buildName q.1.header.name q.1.header.unit (metricType q.1.header.kind) = none →
    Valid q.1.header.name
  values : ∀ kv, Shown P.toGoRuntime (labelling q.1) kv →
    q.2.label ≠ some (normalizeLabelName P.toGoRuntime kv.1) → Valid kv.2.asString
  job : (∀ kv ∈ labelling q.1, normalizeLabelName P.toGoRuntime kv.1 ≠ lit "job") →
    Valid (jobLabelFromResource q.1.resource)
  inst : (∀ kv ∈ labelling q.1, normalizeLabelName P.toGoRuntime kv.1 ≠ lit "instance") →
    Valid (instanceLabelFromResource q.1.resource)

theorem valid_normalizeLabelName (R : GoRuntime) (label : GoString) :
    Valid (normalizeLabelName R label) := by
  have mapped := valid_mapRunes (labelRune R) label
  unfold normalizeLabelName
  split
  · rename_i empty
    rw [empty]
    exact .nil
  · dsimp only
    split
    · exact (valid_append (by decide)).mpr mapped
    · split
      · exact (valid_append (by decide)).mpr mapped
      · exact mapped

section Valid

variable {P : Platform} (writes : WritesValid P) (q : Located × Part)

include writes

private theorem valid_name_iff :
    Valid (partSeries P q).name ↔
      (P.buildName q.1.header.name q.1.header.unit (metricType q.1.header.kind) = none →
        Valid q.1.header.name) := by
  show Valid (baseName P q.1.header ++ q.2.suffix) ↔ _
  rw [valid_append_right q.2.valid_suffix, baseName]
  cases built : P.buildName q.1.header.name q.1.header.unit (metricType q.1.header.kind) with
  | none => simp
  | some name => simp [writes.names _ _ _ _ built]

private theorem valid_extra {name value : GoString}
    (added : q.2.extra P.toGoRuntime = some (name, value)) : Valid name ∧ Valid value := by
  cases part : q.2 <;> rw [part] at added <;> cases added
  · exact ⟨by decide, writes.floats _⟩
  · exact ⟨by decide, by decide⟩
  · exact ⟨by decide, writes.floats _⟩

theorem validSeries_iff : ValidSeries (partSeries P q) ↔ CleanPart P q := by
  constructor
  · rintro ⟨name, labels⟩
    have shows := fun name value origin =>
      (labels name value ((lookup_partSeries P q name value).mpr origin)).2
    have made (name value : GoString) (synthetic : name = lit "job" ∨ name = lit "instance")
        (absent : ∀ kv ∈ labelling q.1, normalizeLabelName P.toGoRuntime kv.1 ≠ name)
        (origin : value ≠ [] → synthesized q.1.resource name = some value) : Valid value := by
      by_cases empty : value = []
      · rw [empty]
        exact .nil
      · exact shows name value
          (Or.inr ⟨q.2.label_ne_synthesized synthetic, Or.inr ⟨absent, origin empty⟩⟩)
    refine ⟨(valid_name_iff writes q).mp name, ?_, ?_, ?_⟩
    · intro kv shown kept
      exact shows _ _ (Or.inr ⟨kept, Or.inl ⟨kv, shown, rfl, rfl⟩⟩)
    · intro absent
      exact made _ _ (Or.inl rfl) absent
        (fun present => synthesized_eq_some.mpr ⟨present, Or.inl ⟨rfl, rfl⟩⟩)
    · intro absent
      exact made _ _ (Or.inr rfl) absent
        (fun present => synthesized_eq_some.mpr ⟨present, Or.inr ⟨rfl, rfl⟩⟩)
  · intro clean
    refine ⟨(valid_name_iff writes q).mpr clean.name, ?_⟩
    intro name value found
    rcases (lookup_partSeries P q name value).mp found with
      added | ⟨kept, ⟨kv, shown, rfl, rfl⟩ | ⟨absent, made⟩⟩
    · exact valid_extra writes q added
    · exact ⟨valid_normalizeLabelName _ _, clean.values kv shown kept⟩
    · obtain ⟨-, ⟨rfl, rfl⟩ | ⟨rfl, rfl⟩⟩ := synthesized_eq_some.mp made
      · exact ⟨by decide, clean.job absent⟩
      · exact ⟨by decide, clean.inst absent⟩

end Valid

end SignalAgent.Telemetry.SeriesTexts
