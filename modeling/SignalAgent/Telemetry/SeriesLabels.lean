/- MID: SignalAgent/Telemetry/SeriesLabels
   layer: model
   source: internal/promnaming/labels.go, internal/promnaming/promnaming.go
   digest: The label view of a series, and what each of its lookups resolves to. -/

import SignalAgent.Foundations.GoMaps
import SignalAgent.Telemetry.Pdata

set_option autoImplicit false
set_option relaxedAutoImplicit false

namespace SignalAgent.Telemetry.SeriesLabels

open Foundations.GoMaps Foundations.GoText
open Pdata

inductive MetricType where
  | unknown
  | nonMonotonicCounter
  | monotonicCounter
  | gauge
  | histogram
  | exponentialHistogram
  | summary
  deriving DecidableEq

/-- The text routines together with the metric namer of the translator library. -/
structure Platform extends GoRuntime where
  buildName : GoString → GoString → MetricType → Option GoString

/-- A platform for evaluation: expressions are literal texts, unquoting strips the quotes
and metric names stay as they are. -/
def plainPlatform : Platform where
  compiles := fun _ => true
  matchString := fun expression v => expression = lit "^(?:" ++ v ++ lit ")$"
  unquote := fun token => some (token.drop 1).dropLast
  letterBeyondLatin := fun _ => false
  digitBeyondLatin := fun _ => false
  formatFloat := fun _ => lit "1"
  buildName := fun name _ _ => some name

def metricType : MetricKind → MetricType
  | .gauge => .gauge
  | .sum true .cumulative => .monotonicCounter
  | .sum _ _ => .nonMonotonicCounter
  | .histogram => .histogram
  | .exponentialHistogram => .exponentialHistogram
  | .summary => .summary
  | .empty => .unknown

/-- The translated name, or the raw one when the namer refuses it. -/
def baseName (P : Platform) (m : MetricHeader) : GoString :=
  (P.buildName m.name m.unit (metricType m.kind)).getD m.name

def labelRune (R : GoRuntime) (r : Nat) : Nat := if R.isLetter r || R.isDigit r then r else 0x5F

def normalizeLabelName (R : GoRuntime) (label : GoString) : GoString :=
  if label = [] then label
  else
    let mapped := mapRunes (labelRune R) label
    if mapped.head?.any (fun b => R.isDigit b.toNat) then lit "key_" ++ mapped
    else if hasPrefix mapped (lit "_") && !hasPrefix mapped (lit "__") then lit "key" ++ mapped
    else mapped

abbrev LabelMap := GoMap GoString GoString

/-- Later attributes overwrite earlier ones of the same normalized name. -/
def putAttributes (R : GoRuntime) (labels : LabelMap) (attrs : Attributes) : LabelMap :=
  attrs.foldl (fun labels kv => labels.insert (normalizeLabelName R kv.1) kv.2.asString) labels

def getAttrAsString (attrs : Attributes) (key : GoString) : GoString :=
  match attrs.get key with
  | some v => v.asString
  | none => []

def jobLabelFromResource (resAttrs : Attributes) : GoString :=
  let svcName := getAttrAsString resAttrs (lit "service.name")
  let svcNS := getAttrAsString resAttrs (lit "service.namespace")
  if svcName = [] then []
  else if svcNS = [] then svcName
  else svcNS ++ lit "/" ++ svcName

def instanceLabelFromResource (resAttrs : Attributes) : GoString :=
  let inst := getAttrAsString resAttrs (lit "service.instance.id")
  if inst ≠ [] then inst else getAttrAsString resAttrs (lit "host.name")

/-- A label that is absent gets this value, unless the value is empty. -/
def putAbsent (labels : LabelMap) (name value : GoString) : LabelMap :=
  if name ∈ labels then labels
  else if value = [] then labels
  else labels.insert name value

def addSynthesizedJobInstance (labels : LabelMap) (resAttrs : Attributes) : LabelMap :=
  putAbsent (putAbsent labels (lit "job") (jobLabelFromResource resAttrs)) (lit "instance")
    (instanceLabelFromResource resAttrs)

/-- The whole label view; `extraLabels` are listed in the order the map yields them. -/
def buildSeriesLabels (R : GoRuntime) (resAttrs pointAttrs : Attributes)
    (extraLabels : List (GoString × GoString)) : LabelMap :=
  let labels := putAttributes R (putAttributes R ∅ resAttrs) pointAttrs
  extraLabels.foldl (fun labels kv => labels.insert (normalizeLabelName R kv.1) kv.2)
    (addSynthesizedJobInstance labels resAttrs)

def resourceLabelMap (R : GoRuntime) (resAttrs : Attributes) : LabelMap :=
  addSynthesizedJobInstance (putAttributes R ∅ resAttrs) resAttrs

theorem lookup_putAttributes (R : GoRuntime) (labels : LabelMap) (attrs : Attributes)
    (name : GoString) :
    (putAttributes R labels attrs).lookup name =
      ((putAttributes R ∅ attrs).lookup name).or (labels.lookup name) := by
  induction attrs using List.reverseRecOn with
  | nil => simp [putAttributes]
  | append_singleton attrs kv ih =>
    simp only [putAttributes, List.foldl_append, List.foldl_cons, List.foldl_nil,
      lookup_insert_eq] at ih ⊢
    split
    · rfl
    · exact ih

theorem lookup_putAttributes_concat (R : GoRuntime) (attrs : Attributes)
    (last : GoString × Value) (name : GoString) :
    (putAttributes R ∅ (attrs ++ [last])).lookup name =
      if name = normalizeLabelName R last.1 then some last.2.asString
      else (putAttributes R ∅ attrs).lookup name := by
  rw [putAttributes, List.foldl_append]
  exact lookup_insert_eq _ _ _ _

theorem lookup_putAttributes_eq_none (R : GoRuntime) (attrs : Attributes) (name : GoString) :
    (putAttributes R ∅ attrs).lookup name = none ↔
      ∀ kv ∈ attrs, normalizeLabelName R kv.1 ≠ name := by
  induction attrs using List.reverseRecOn with
  | nil => simp [putAttributes]
  | append_singleton attrs last ih =>
    rw [lookup_putAttributes_concat]
    by_cases same : name = normalizeLabelName R last.1
    · rw [if_pos same]
      refine iff_of_false (Option.some_ne_none _) (fun absent => ?_)
      exact absent last (by simp) same.symm
    · rw [if_neg same, ih, List.forall_mem_append, List.forall_mem_singleton]
      exact (and_iff_left (Ne.symm same)).symm

theorem lookup_putAbsent (labels : LabelMap) (name value key : GoString) :
    (putAbsent labels name value).lookup key =
      (labels.lookup key).or (if key = name ∧ value ≠ [] then some value else none) := by
  unfold putAbsent
  by_cases same : key = name
  · subst same
    cases found : labels.lookup key with
    | some v => simp [mem_of_lookup found, found]
    | none =>
      have absent : key ∉ labels := Finmap.lookup_eq_none.mp found
      rw [if_neg absent]
      split <;> simp_all
  · have different : ∀ v, (labels.insert name v).lookup key = labels.lookup key :=
      fun v => Finmap.lookup_insert_of_ne labels same
    split
    · simp [same]
    · split <;> simp [same, different]

/-- The synthesized labels depend on the resource alone and answer last. -/
def synthesized (resAttrs : Attributes) (name : GoString) : Option GoString :=
  if name = lit "job" ∧ jobLabelFromResource resAttrs ≠ [] then some (jobLabelFromResource resAttrs)
  else if name = lit "instance" ∧ instanceLabelFromResource resAttrs ≠ [] then
    some (instanceLabelFromResource resAttrs)
  else none

theorem synthesized_eq_some {resAttrs : Attributes} {name value : GoString} :
    synthesized resAttrs name = some value ↔
      value ≠ [] ∧ (name = lit "job" ∧ value = jobLabelFromResource resAttrs ∨
        name = lit "instance" ∧ value = instanceLabelFromResource resAttrs) := by
  have other : lit "instance" ≠ lit "job" := by decide
  unfold synthesized
  constructor
  · intro made
    split at made
    · rename_i job
      obtain rfl := Option.some.inj made
      exact ⟨job.2, Or.inl ⟨job.1, rfl⟩⟩
    · split at made
      · rename_i inst
        obtain rfl := Option.some.inj made
        exact ⟨inst.2, Or.inr ⟨inst.1, rfl⟩⟩
      · cases made
  · rintro ⟨present, ⟨rfl, rfl⟩ | ⟨rfl, rfl⟩⟩
    · rw [if_pos ⟨rfl, present⟩]
    · rw [if_neg (fun job => other job.1), if_pos ⟨rfl, present⟩]

theorem lookup_addSynthesizedJobInstance (labels : LabelMap) (resAttrs : Attributes)
    (name : GoString) :
    (addSynthesizedJobInstance labels resAttrs).lookup name =
      (labels.lookup name).or (synthesized resAttrs name) := by
  rw [addSynthesizedJobInstance, lookup_putAbsent, lookup_putAbsent, Option.or_assoc, synthesized]
  congr 1
  by_cases job : name = lit "job" ∧ jobLabelFromResource resAttrs ≠ []
  · simp [job]
  · simp [job]

theorem lookup_buildSeriesLabels_nil (R : GoRuntime) (resAttrs pointAttrs : Attributes)
    (name : GoString) :
    (buildSeriesLabels R resAttrs pointAttrs []).lookup name =
      ((putAttributes R ∅ pointAttrs).lookup name).or
        ((resourceLabelMap R resAttrs).lookup name) := by
  simp only [buildSeriesLabels, List.foldl_nil, resourceLabelMap, lookup_addSynthesizedJobInstance]
  rw [lookup_putAttributes, Option.or_assoc]

theorem lookup_buildSeriesLabels_single (R : GoRuntime) (resAttrs pointAttrs : Attributes)
    (extra : GoString × GoString) (name : GoString) :
    (buildSeriesLabels R resAttrs pointAttrs [extra]).lookup name =
      if name = normalizeLabelName R extra.1 then some extra.2
      else (buildSeriesLabels R resAttrs pointAttrs []).lookup name := by
  simp only [buildSeriesLabels, List.foldl_cons, List.foldl_nil, lookup_insert_eq]

end SignalAgent.Telemetry.SeriesLabels
