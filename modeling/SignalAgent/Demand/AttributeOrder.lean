/- MID: SignalAgent/Demand/AttributeOrder
   layer: results
   source: internal/promnaming/labels.go, components/demandfilter/selectors.go,
     components/metricstracker/processor.go
   digest: When the label view, the fingerprint and the verdict do not depend on attribute order. -/

import SignalAgent.Demand.MetricFilterSpec
import SignalAgent.Telemetry.SeriesIdentity

set_option autoImplicit false
set_option relaxedAutoImplicit false

namespace SignalAgent.Demand.AttributeOrder

open Foundations.GoMaps Foundations.GoText
open Selectors.SelectorMatch
open Telemetry.CollectorTimeseries Telemetry.Pdata Telemetry.SeriesIdentity Telemetry.SeriesLabels
open MetricFilter MetricFilterSpec

variable (R : GoRuntime)

/-- Attributes that normalize to this name have one text. -/
def AgreeOn (attrs : Attributes) (name : GoString) : Prop :=
  ∀ kv ∈ attrs, ∀ kv' ∈ attrs, normalizeLabelName R kv.1 = name →
    normalizeLabelName R kv'.1 = name → kv.2.asString = kv'.2.asString

/-- Attributes meet on a label name only with one text; resource attributes may also meet below
a datapoint attribute of that name. -/
def MeetInAgreement (resAttrs pointAttrs : Attributes) : Prop :=
  (∀ name, AgreeOn R pointAttrs name) ∧
    ∀ name, AgreeOn R resAttrs name ∨ ∃ kv ∈ pointAttrs, normalizeLabelName R kv.1 = name

/-- Whatever order the attributes are listed in: the labels, every fingerprint built from them and
every verdict of the filter are the same. -/
def OrderIndependent (resAttrs pointAttrs : Attributes) : Prop :=
  ∀ resAttrs' pointAttrs', resAttrs'.Perm resAttrs → pointAttrs'.Perm pointAttrs →
    (∀ extraLabels, buildSeriesLabels R resAttrs' pointAttrs' extraLabels =
      buildSeriesLabels R resAttrs pointAttrs extraLabels) ∧
    (∀ F metric extraLabels order order',
      IterationOrder (buildSeriesLabels R resAttrs' pointAttrs' extraLabels) order' →
      IterationOrder (buildSeriesLabels R resAttrs pointAttrs extraLabels) order →
      buildFingerprintString F metric (buildSeriesLabels R resAttrs' pointAttrs' extraLabels)
          order' =
        buildFingerprintString F metric (buildSeriesLabels R resAttrs pointAttrs extraLabels)
          order) ∧
    ∀ cands, matchDP R cands (resourceLabelMap R resAttrs') pointAttrs' =
      matchDP R cands (resourceLabelMap R resAttrs) pointAttrs

section Lookup

variable {R}

private theorem exists_of_lookup {attrs : Attributes} {name text : GoString}
    (found : (putAttributes R ∅ attrs).lookup name = some text) :
    ∃ kv ∈ attrs, normalizeLabelName R kv.1 = name ∧ kv.2.asString = text := by
  induction attrs using List.reverseRecOn with
  | nil => cases found
  | append_singleton attrs last ih =>
    rw [lookup_putAttributes_concat] at found
    split at found
    · rename_i same
      exact ⟨last, by simp, same.symm, Option.some.inj found⟩
    · obtain ⟨kv, member, rest⟩ := ih found
      exact ⟨kv, List.mem_append_left _ member, rest⟩

private theorem exists_lookup {attrs : Attributes} {kv : GoString × Value} (member : kv ∈ attrs) :
    ∃ text, (putAttributes R ∅ attrs).lookup (normalizeLabelName R kv.1) = some text := by
  rw [← Option.ne_none_iff_exists']
  intro absent
  exact (lookup_putAttributes_eq_none R attrs _).mp absent kv member rfl

private theorem lookup_of_agree {attrs attrs' : Attributes} {name text : GoString}
    (perm : attrs'.Perm attrs) (agree : AgreeOn R attrs name)
    (found : (putAttributes R ∅ attrs').lookup name = some text) :
    (putAttributes R ∅ attrs).lookup name = some text := by
  obtain ⟨kv, member, rfl, rfl⟩ := exists_of_lookup found
  have inside := perm.mem_iff.mp member
  obtain ⟨text, found'⟩ := exists_lookup (R := R) inside
  obtain ⟨kv', inside', same, rfl⟩ := exists_of_lookup found'
  rw [found', agree kv inside kv' inside' rfl same]

private theorem lookup_perm {attrs attrs' : Attributes} {name : GoString}
    (perm : attrs'.Perm attrs) (agree : AgreeOn R attrs name) :
    (putAttributes R ∅ attrs').lookup name = (putAttributes R ∅ attrs).lookup name := by
  have agree' : AgreeOn R attrs' name := fun kv member kv' member' =>
    agree kv (perm.mem_iff.mp member) kv' (perm.mem_iff.mp member')
  apply Option.ext
  intro text
  exact ⟨lookup_of_agree perm agree, lookup_of_agree perm.symm agree'⟩

private theorem exists_perm_lookup {attrs : Attributes} {kv : GoString × Value}
    (member : kv ∈ attrs) :
    ∃ attrs' : Attributes, attrs'.Perm attrs ∧
      (putAttributes R ∅ attrs').lookup (normalizeLabelName R kv.1) = some kv.2.asString := by
  refine ⟨attrs.erase kv ++ [kv], ?_, ?_⟩
  · exact (List.perm_append_singleton _ _).trans (List.perm_cons_erase member).symm
  · rw [lookup_putAttributes_concat, if_pos rfl]

end Lookup

section Synthesized

private theorem get_eq_some_iff {attrs : Attributes} (distinct : (attrs.map Prod.fst).Nodup)
    (key : GoString) (v : Value) : attrs.get key = some v ↔ (key, v) ∈ attrs := by
  induction attrs with
  | nil => simp [Attributes.get]
  | cons kv attrs ih =>
    obtain ⟨k, w⟩ := kv
    obtain ⟨fresh, distinct⟩ := List.nodup_cons.mp distinct
    have rest := ih distinct
    unfold Attributes.get at rest ⊢
    rw [List.lookup_cons, List.mem_cons, Prod.mk.injEq]
    by_cases same : key = k
    · subst same
      have later : (key, v) ∉ attrs := fun member => fresh (List.mem_map.mpr ⟨_, member, rfl⟩)
      simp [later, eq_comm]
    · have other : (key == k) = false := beq_eq_false_iff_ne.mpr same
      simp [other, same, rest]

private theorem getAttrAsString_perm {attrs attrs' : Attributes} (perm : attrs'.Perm attrs)
    (distinct : (attrs.map Prod.fst).Nodup) (key : GoString) :
    getAttrAsString attrs' key = getAttrAsString attrs key := by
  have distinct' : (attrs'.map Prod.fst).Nodup := (perm.map Prod.fst).nodup_iff.mpr distinct
  have same : attrs'.get key = attrs.get key := by
    apply Option.ext
    intro v
    rw [get_eq_some_iff distinct', get_eq_some_iff distinct, perm.mem_iff]
  rw [getAttrAsString, getAttrAsString, same]

private theorem synthesized_perm {attrs attrs' : Attributes} (perm : attrs'.Perm attrs)
    (distinct : (attrs.map Prod.fst).Nodup) (name : GoString) :
    synthesized attrs' name = synthesized attrs name := by
  -- The synthesized labels read attributes by their keys, which are distinct.
  have read := getAttrAsString_perm perm distinct
  have job : jobLabelFromResource attrs' = jobLabelFromResource attrs := by
    simp only [jobLabelFromResource, read]
  have inst : instanceLabelFromResource attrs' = instanceLabelFromResource attrs := by
    rw [instanceLabelFromResource, instanceLabelFromResource, read, read]
  rw [synthesized, synthesized, job, inst]

end Synthesized

private theorem buildSeriesLabels_extra (resAttrs pointAttrs : Attributes)
    (extraLabels : List (GoString × GoString)) :
    buildSeriesLabels R resAttrs pointAttrs extraLabels =
      extraLabels.foldl (fun labels kv => labels.insert (normalizeLabelName R kv.1) kv.2)
        (buildSeriesLabels R resAttrs pointAttrs []) := rfl

private theorem lookup_buildSeriesLabels (resAttrs pointAttrs : Attributes) (name : GoString) :
    (buildSeriesLabels R resAttrs pointAttrs []).lookup name =
      (((putAttributes R ∅ pointAttrs).lookup name).or
        ((putAttributes R ∅ resAttrs).lookup name)).or (synthesized resAttrs name) := by
  rw [lookup_buildSeriesLabels_nil, resourceLabelMap, lookup_addSynthesizedJobInstance,
    Option.or_assoc]

variable {R}

private theorem labels_perm {resAttrs pointAttrs resAttrs' pointAttrs' : Attributes}
    (distinct : (resAttrs.map Prod.fst).Nodup) (meet : MeetInAgreement R resAttrs pointAttrs)
    (perm : resAttrs'.Perm resAttrs) (perm' : pointAttrs'.Perm pointAttrs) :
    buildSeriesLabels R resAttrs' pointAttrs' [] = buildSeriesLabels R resAttrs pointAttrs [] := by
  apply Finmap.ext_lookup
  intro name
  rw [lookup_buildSeriesLabels, lookup_buildSeriesLabels, lookup_perm perm' (meet.1 name),
    synthesized_perm perm distinct]
  rcases meet.2 name with agree | ⟨kv, member, rfl⟩
  · rw [lookup_perm perm agree]
  · obtain ⟨text, found⟩ := exists_lookup (R := R) member
    simp only [found, Option.some_or]

private theorem orderIndependent_of_labels {resAttrs pointAttrs : Attributes}
    (same : ∀ resAttrs' pointAttrs', resAttrs'.Perm resAttrs → pointAttrs'.Perm pointAttrs →
      buildSeriesLabels R resAttrs' pointAttrs' [] = buildSeriesLabels R resAttrs pointAttrs []) :
    OrderIndependent R resAttrs pointAttrs := by
  intro resAttrs' pointAttrs' perm perm'
  have labels : ∀ extraLabels, buildSeriesLabels R resAttrs' pointAttrs' extraLabels =
      buildSeriesLabels R resAttrs pointAttrs extraLabels := by
    intro extraLabels
    rw [buildSeriesLabels_extra, same _ _ perm perm', ← buildSeriesLabels_extra]
  refine ⟨labels, ?_, ?_⟩
  · intro F metric extraLabels order order' visits' visits
    rw [labels] at visits' ⊢
    exact buildFingerprintString_order F visits' visits
  · intro cands
    rw [Bool.eq_iff_iff, matchDP_iff, matchDP_iff, same _ _ perm perm']

private theorem pointAttrs_agree {resAttrs pointAttrs : Attributes}
    (same : ∀ pointAttrs', pointAttrs'.Perm pointAttrs →
      buildSeriesLabels R resAttrs pointAttrs' [] = buildSeriesLabels R resAttrs pointAttrs [])
    (name : GoString) : AgreeOn R pointAttrs name := by
  -- Two datapoint attributes that meet are listed last in turn.
  have decides : ∀ kv ∈ pointAttrs, (buildSeriesLabels R resAttrs pointAttrs []).lookup
      (normalizeLabelName R kv.1) = some kv.2.asString := by
    intro kv member
    obtain ⟨pointAttrs', perm, found⟩ := exists_perm_lookup (R := R) member
    rw [← same pointAttrs' perm, lookup_buildSeriesLabels, found, Option.some_or, Option.some_or]
  intro kv member kv' member' normalized normalized'
  have first := decides kv member
  have second := decides kv' member'
  rw [normalized] at first
  rw [normalized', first] at second
  exact Option.some.inj second

private theorem resAttrs_agree {resAttrs pointAttrs : Attributes}
    (same : ∀ resAttrs', resAttrs'.Perm resAttrs →
      buildSeriesLabels R resAttrs' pointAttrs [] = buildSeriesLabels R resAttrs pointAttrs [])
    {name : GoString} (open_ : ¬ ∃ kv ∈ pointAttrs, normalizeLabelName R kv.1 = name) :
    AgreeOn R resAttrs name := by
  have absent : (putAttributes R ∅ pointAttrs).lookup name = none := by
    cases found : (putAttributes R ∅ pointAttrs).lookup name with
    | none => rfl
    | some text =>
      obtain ⟨kv, member, normalized, -⟩ := exists_of_lookup found
      exact absurd ⟨kv, member, normalized⟩ open_
  have decides : ∀ kv ∈ resAttrs, normalizeLabelName R kv.1 = name →
      (buildSeriesLabels R resAttrs pointAttrs []).lookup name = some kv.2.asString := by
    rintro kv member rfl
    obtain ⟨resAttrs', perm, found⟩ := exists_perm_lookup (R := R) member
    rw [← same resAttrs' perm, lookup_buildSeriesLabels, absent, found, Option.none_or,
      Option.some_or]
  intro kv member kv' member' normalized normalized'
  have first := decides kv member normalized
  rw [decides kv' member' normalized'] at first
  exact (Option.some.inj first).symm

/-- With distinct resource keys, attribute order is irrelevant exactly when attributes meet on a
label name only in agreement. -/
theorem order_independent_iff (R : GoRuntime) (resAttrs pointAttrs : Attributes)
    (distinct : (resAttrs.map Prod.fst).Nodup) :
    OrderIndependent R resAttrs pointAttrs ↔ MeetInAgreement R resAttrs pointAttrs := by
  constructor
  · intro independent
    refine ⟨?_, fun name => ?_⟩
    · exact pointAttrs_agree fun pointAttrs' perm =>
        (independent resAttrs pointAttrs' (List.Perm.refl _) perm).1 []
    · by_cases hidden : ∃ kv ∈ pointAttrs, normalizeLabelName R kv.1 = name
      · exact Or.inr hidden
      · exact Or.inl (resAttrs_agree (fun resAttrs' perm =>
          (independent resAttrs' pointAttrs perm (List.Perm.refl _)).1 []) hidden)
  · intro meet
    exact orderIndependent_of_labels fun resAttrs' pointAttrs' perm perm' =>
      labels_perm distinct meet perm perm'

private theorem agreeOn_of_pairs {attrs : Attributes}
    (pairs : ∀ kv ∈ attrs, ∀ kv' ∈ attrs, normalizeLabelName R kv.1 = normalizeLabelName R kv'.1 →
      kv.2.asString = kv'.2.asString) (name : GoString) : AgreeOn R attrs name := by
  intro kv member kv' member' same same'
  exact pairs kv member kv' member' (same.trans same'.symm)

theorem labels_apart_are_order_independent :
    OrderIndependent plainPlatform.toGoRuntime
      [(lit "service.name", .string (lit "api")), (lit "zone", .string (lit "eu"))]
      [(lit "a.b", .string (lit "1")), (lit "zone", .string (lit "us"))] := by
  refine (order_independent_iff plainPlatform.toGoRuntime _ _ (by decide)).mpr ⟨?_, ?_⟩
  · exact agreeOn_of_pairs (by decide +kernel)
  · exact fun name => .inl (agreeOn_of_pairs (by decide +kernel) name)

/-- Two datapoint attributes whose keys differ and whose label name is the same. -/
def meetingAttrs : Attributes := [(lit "a.b", .string (lit "1")), (lit "a_b", .string (lit "2"))]

/-- The candidate of the selector a_b="1". -/
def meetingCandidate : CompiledSelector := ⟨[], [⟨lit "a_b", .eq, lit "1"⟩]⟩

theorem last_attribute_decides_the_label :
    (meetingAttrs.map Prod.fst).Nodup ∧ meetingAttrs.reverse.Perm meetingAttrs ∧
      (buildSeriesLabels plainPlatform.toGoRuntime [] meetingAttrs []).lookup (lit "a_b") =
        some (lit "2") ∧
      (buildSeriesLabels plainPlatform.toGoRuntime [] meetingAttrs.reverse []).lookup
        (lit "a_b") = some (lit "1") ∧
      matchDP plainPlatform.toGoRuntime [meetingCandidate]
        (resourceLabelMap plainPlatform.toGoRuntime []) meetingAttrs = false ∧
      matchDP plainPlatform.toGoRuntime [meetingCandidate]
        (resourceLabelMap plainPlatform.toGoRuntime []) meetingAttrs.reverse = true ∧
      ¬ OrderIndependent plainPlatform.toGoRuntime [] meetingAttrs := by
  have dropped : matchDP plainPlatform.toGoRuntime [meetingCandidate]
      (resourceLabelMap plainPlatform.toGoRuntime []) meetingAttrs = false := by decide +kernel
  have kept : matchDP plainPlatform.toGoRuntime [meetingCandidate]
      (resourceLabelMap plainPlatform.toGoRuntime []) meetingAttrs.reverse = true := by
    decide +kernel
  refine ⟨by decide, List.reverse_perm _, by decide +kernel, by decide +kernel, dropped, kept, ?_⟩
  intro independent
  have verdict := (independent [] meetingAttrs.reverse (List.Perm.refl _)
    (List.reverse_perm _)).2.2 [meetingCandidate]
  rw [dropped, kept] at verdict
  exact Bool.noConfusion verdict

end SignalAgent.Demand.AttributeOrder
