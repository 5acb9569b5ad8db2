/- MID: SignalAgent/Telemetry/SeriesIdentity
   layer: results
   source: components/metricstracker/collector_timeseries.go, internal/promnaming/labels.go
   digest: A fingerprint text is read back from its right end, so it identifies the series. -/

import SignalAgent.Foundations.GoRunes
import SignalAgent.Telemetry.CollectorTimeseries

set_option autoImplicit false
set_option relaxedAutoImplicit false

namespace SignalAgent.Telemetry.SeriesIdentity

open Foundations.GoMaps Foundations.GoQuote Foundations.GoRunes Foundations.GoText
open Index.KnownCache (HashKey LabelPair TimeseriesEntry)
open CollectorTimeseries SeriesLabels

/-- The characters that stand in front of a label name do not occur in it. -/
def Plain (name : GoString) : Prop := 0x2C ∉ name ∧ 0x7B ∉ name

private theorem labelRune_plain (R : GoRuntime) (r : Nat) :
    labelRune R r ≠ 0x2C ∧ labelRune R r ≠ 0x7B := by
  unfold labelRune
  split
  · rename_i accepted
    constructor <;> rintro rfl <;>
      simp [GoRuntime.isLetter, GoRuntime.isDigit] at accepted
  · decide

private theorem plain_mapRunes (R : GoRuntime) (label : GoString) :
    Plain (mapRunes (labelRune R) label) := by
  have rune := labelRune_plain R
  constructor <;> intro member <;> obtain ⟨r, -, inside⟩ := List.mem_flatMap.mp member
  · exact (rune r).1 (eq_of_mem_encodeRune inside (by decide))
  · exact (rune r).2 (eq_of_mem_encodeRune inside (by decide))

private theorem plain_append {front back : GoString} (first : Plain front) (second : Plain back) :
    Plain (front ++ back) :=
  ⟨fun member => (List.mem_append.mp member).elim first.1 second.1,
    fun member => (List.mem_append.mp member).elim first.2 second.2⟩

theorem plain_normalizeLabelName (R : GoRuntime) (label : GoString) :
    Plain (normalizeLabelName R label) := by
  have mapped := plain_mapRunes R label
  have front : Plain (lit "key_") ∧ Plain (lit "key") := by
    simp only [Plain]
    decide
  unfold normalizeLabelName
  split
  · rename_i empty
    rw [empty]
    exact ⟨List.not_mem_nil, List.not_mem_nil⟩
  · dsimp only
    split
    · exact plain_append front.1 mapped
    · split
      · exact plain_append front.2 mapped
      · exact mapped

section Text

variable (F : Fingerprinting)

/-- The text of an entry up to its last label. -/
private def opened (metric : GoString) (pairs : List LabelPair) : GoString :=
  metric ++ lit "\x7b" ++
    pairs.zipIdx.flatMap (fun lp => writeLabel F lp.2 lp.1.name lp.1.value)

/-- What stands in front of the name of a label that follows `pairs`. -/
private def before (metric : GoString) (pairs : List LabelPair) : GoString × UInt8 :=
  if pairs = [] then (metric, 0x7B) else (opened F metric pairs, 0x2C)

private theorem opened_append (metric : GoString) (pairs : List LabelPair) (last : LabelPair) :
    opened F metric (pairs ++ [last]) =
      (before F metric pairs).1 ++ (before F metric pairs).2 :: last.name ++
        0x3D :: 0x22 :: quoteBody F.isPrint last.value ++ [0x22] := by
  have unfolded : opened F metric (pairs ++ [last]) =
      opened F metric pairs ++ writeLabel F pairs.length last.name last.value := by
    simp [opened, List.zipIdx_append]
  have brace : lit "\x7b" = [0x7B] := rfl
  have comma : lit "," = [0x2C] := rfl
  have equals : lit "=" = [0x3D] := rfl
  rw [unfolded, before]
  cases pairs with
  | nil => simp [opened, writeLabel, quote, brace, equals]
  | cons first rest => simp [writeLabel, quote, comma, equals]

private theorem value_inj {front front' body body' : GoString} (escaped : Escaped body)
    (escaped' : Escaped body')
    (same : front ++ 0x3D :: 0x22 :: body = front' ++ 0x3D :: 0x22 :: body') :
    front = front' ∧ body = body' := by
  -- Inside a literal no quote follows an equals sign.
  have longer : ∀ {more back back' : GoString}, Escaped back →
      0x3D :: 0x22 :: back = more ++ 0x3D :: 0x22 :: back' → more = [] := by
    intro more back back' inside split
    cases more with
    | nil => rfl
    | cons c more =>
      cases more with
      | nil => exact absurd (List.cons.inj (List.cons.inj split).2).1 (by decide)
      | cons d more =>
        rw [(List.cons.inj (List.cons.inj split).2).2] at inside
        exact absurd inside (Escaped.quote_after (by decide))
  rcases List.append_eq_append_iff.mp same with ⟨more, whole, split⟩ | ⟨more, whole, split⟩
  · obtain rfl := longer escaped split
    exact ⟨by rw [whole, List.append_nil], (List.cons.inj (List.cons.inj split).2).2⟩
  · obtain rfl := longer escaped' split
    exact ⟨by rw [whole, List.append_nil], (List.cons.inj (List.cons.inj split).2).2.symm⟩

private theorem name_inj {front front' name name' : GoString} {c c' : UInt8}
    (free : c' ∉ name) (free' : c ∉ name') (same : front ++ c :: name = front' ++ c' :: name') :
    front = front' ∧ c = c' ∧ name = name' := by
  -- A name reaches back to a comma or a brace.
  have longer : ∀ {more back back' : GoString} {d d' : UInt8}, d' ∉ back →
      d :: back = more ++ d' :: back' → more = [] := by
    intro more back back' d d' outside split
    cases more with
    | nil => rfl
    | cons e more =>
      rw [(List.cons.inj split).2] at outside
      exact absurd (List.mem_append_right _ List.mem_cons_self) outside
  rcases List.append_eq_append_iff.mp same with ⟨more, whole, split⟩ | ⟨more, whole, split⟩
  · obtain rfl := longer free split
    obtain ⟨head, tail⟩ := List.cons.inj split
    exact ⟨by rw [whole, List.append_nil], head, tail⟩
  · obtain rfl := longer free' split
    obtain ⟨head, tail⟩ := List.cons.inj split
    exact ⟨by rw [whole, List.append_nil], head.symm, tail.symm⟩

private theorem before_free (metric : GoString) (pairs : List LabelPair) {name : GoString}
    (plain : Plain name) : (before F metric pairs).2 ∉ name := by
  unfold before
  split
  · exact plain.2
  · exact plain.1

private theorem opened_inj {metric metric' : GoString} (pairs pairs' : List LabelPair)
    (full : pairs ≠ []) (full' : pairs' ≠ [])
    (plain : ∀ lp ∈ pairs, Plain lp.name) (plain' : ∀ lp ∈ pairs', Plain lp.name)
    (same : opened F metric pairs = opened F metric' pairs') :
    metric = metric' ∧ pairs = pairs' := by
  -- The labels are compared from the last one to the first one.
  induction pairs using List.reverseRecOn generalizing pairs' with
  | nil => exact absurd rfl full
  | append_singleton front last ih =>
    obtain ⟨front', last', rfl⟩ : ∃ front' last', pairs' = front' ++ [last'] :=
      ⟨_, _, (List.dropLast_concat_getLast full').symm⟩
    rw [opened_append, opened_append, List.append_left_inj] at same
    obtain ⟨names, values⟩ := value_inj (escaped_quoteBody F.isPrint last.value)
      (escaped_quoteBody F.isPrint last'.value) same
    have free := before_free F metric' front' (plain last (by simp))
    have free' := before_free F metric front (plain' last' (by simp))
    obtain ⟨fronts, marks, name⟩ := name_inj free free' names
    have equal : last = last' := by
      cases last
      cases last'
      rw [LabelPair.mk.injEq]
      exact ⟨name, quoteBody_injective F.isPrint values⟩
    unfold before at fronts marks
    by_cases none : front = [] <;> by_cases none' : front' = []
    · rw [if_pos none, if_pos none'] at fronts
      exact ⟨fronts, by rw [none, none', equal]⟩
    · rw [if_pos none, if_neg none'] at marks
      exact absurd marks (show (0x7B : UInt8) ≠ 0x2C by decide)
    · rw [if_neg none, if_pos none'] at marks
      exact absurd marks (show (0x2C : UInt8) ≠ 0x7B by decide)
    · rw [if_neg none, if_neg none'] at fronts
      obtain ⟨metrics, fronts⟩ := ih front' none none'
        (fun lp member => plain lp (List.mem_append_left _ member))
        (fun lp member => plain' lp (List.mem_append_left _ member)) fronts
      exact ⟨metrics, by rw [fronts, equal]⟩

private theorem buildFingerprintFromEntry_full {entry : TimeseriesEntry}
    (full : entry.labels ≠ []) :
    buildFingerprintFromEntry F entry = opened F entry.metricName entry.labels ++ lit "\x7d" := by
  rw [buildFingerprintFromEntry, if_neg (by rwa [List.length_eq_zero_iff]), opened]

end Text

section Series

variable (F : Fingerprinting) {metric metric' : GoString} {labels labels' : LabelMap}
  {order order' : List GoString}

/-- A series that has labels is known from its text, whatever its metric is called. -/
theorem eq_of_buildFingerprintString (full : labels ≠ ∅) (full' : labels' ≠ ∅)
    (plain : ∀ k ∈ labels, Plain k) (plain' : ∀ k ∈ labels', Plain k)
    (visits : IterationOrder labels order) (visits' : IterationOrder labels' order')
    (same : buildFingerprintString F metric labels order =
      buildFingerprintString F metric' labels' order') :
    metric = metric' ∧ labels = labels' := by
  have some := mt (extractSortedLabelPairs_eq_nil_iff visits).mp full
  have some' := mt (extractSortedLabelPairs_eq_nil_iff visits').mp full'
  have names : ∀ {m : LabelMap} {keys : List GoString}, IterationOrder m keys →
      (∀ k ∈ m, Plain k) → ∀ lp ∈ extractSortedLabelPairs m keys, Plain lp.name :=
    fun visited free lp member =>
      free _ (mem_of_lookup ((mem_extractSortedLabelPairs visited _ _).mp member))
  rw [← buildFingerprintFromEntry_extract F metric visits 0,
    ← buildFingerprintFromEntry_extract F metric' visits' 0,
    buildFingerprintFromEntry_full F some, buildFingerprintFromEntry_full F some',
    List.append_left_inj] at same
  obtain ⟨metrics, pairs⟩ := opened_inj F _ _ some some' (names visits plain)
    (names visits' plain') same
  exact ⟨metrics, eq_of_extractSortedLabelPairs visits visits' pairs⟩

theorem buildFingerprintString_order {first second : List GoString}
    (visits : IterationOrder labels first) (visits' : IterationOrder labels second) :
    buildFingerprintString F metric labels first =
      buildFingerprintString F metric labels second := by
  rw [← buildFingerprintFromEntry_extract F metric visits 0,
    ← buildFingerprintFromEntry_extract F metric visits' 0,
    extractSortedLabelPairs_order visits visits']

private theorem brace_mem_buildFingerprintString (metric : GoString) (order : List GoString)
    (full : labels ≠ ∅) : 0x7B ∈ buildFingerprintString F metric labels order := by
  have brace : 0x7B ∈ lit "\x7b" := List.mem_singleton.mpr rfl
  rw [buildFingerprintString, if_neg full]
  exact List.mem_append_left _ (List.mem_append_left _ (List.mem_append_right _ brace))

private theorem buildFingerprintString_inj (plainMetric : 0x7B ∉ metric)
    (plainMetric' : 0x7B ∉ metric') (plain : ∀ k ∈ labels, Plain k)
    (plain' : ∀ k ∈ labels', Plain k) (visits : IterationOrder labels order)
    (visits' : IterationOrder labels' order')
    (same : buildFingerprintString F metric labels order =
      buildFingerprintString F metric' labels' order') :
    metric = metric' ∧ labels = labels' := by
  by_cases empty : labels = ∅ <;> by_cases empty' : labels' = ∅
  · rw [buildFingerprintString, buildFingerprintString, if_pos empty, if_pos empty'] at same
    exact ⟨same, empty.trans empty'.symm⟩
  · have brace := brace_mem_buildFingerprintString F metric' order' empty'
    rw [← same, buildFingerprintString, if_pos empty] at brace
    exact absurd brace plainMetric
  · have brace := brace_mem_buildFingerprintString F metric order empty
    rw [same, buildFingerprintString, if_pos empty'] at brace
    exact absurd brace plainMetric'
  · exact eq_of_buildFingerprintString F empty empty' plain plain' visits visits' same

end Series

/-- The fingerprint text identifies the series in any order of iteration, and two series share
a key only if the hash maps their different texts to one value. -/
theorem fingerprint_identifies_series (F : Fingerprinting) (R : GoRuntime)
    (m₁ m₂ : GoString) (L₁ L₂ : LabelMap) (order₁ order₂ : List GoString)
    (metric₁ : 0x7B ∉ m₁) (metric₂ : 0x7B ∉ m₂)
    (names₁ : ∀ k ∈ L₁, ∃ label, k = normalizeLabelName R label)
    (names₂ : ∀ k ∈ L₂, ∃ label, k = normalizeLabelName R label)
    (visits₁ : IterationOrder L₁ order₁) (visits₂ : IterationOrder L₂ order₂) :
    (buildFingerprintString F m₁ L₁ order₁ = buildFingerprintString F m₂ L₂ order₂ ↔
      m₁ = m₂ ∧ L₁ = L₂) ∧
    ((m₁, L₁) ≠ (m₂, L₂) →
      hashKeyOf F (buildFingerprintString F m₁ L₁ order₁) =
        hashKeyOf F (buildFingerprintString F m₂ L₂ order₂) →
      buildFingerprintString F m₁ L₁ order₁ ≠ buildFingerprintString F m₂ L₂ order₂ ∧
        F.hash128 (buildFingerprintString F m₁ L₁ order₁) =
          F.hash128 (buildFingerprintString F m₂ L₂ order₂)) := by
  have plain : ∀ {L : LabelMap}, (∀ k ∈ L, ∃ label, k = normalizeLabelName R label) →
      ∀ k ∈ L, Plain k := by
    intro L names k member
    obtain ⟨label, rfl⟩ := names k member
    exact plain_normalizeLabelName R label
  have identifies : buildFingerprintString F m₁ L₁ order₁ = buildFingerprintString F m₂ L₂ order₂ ↔
      m₁ = m₂ ∧ L₁ = L₂ := by
    constructor
    · exact buildFingerprintString_inj F metric₁ metric₂ (plain names₁) (plain names₂) visits₁
        visits₂
    · rintro ⟨rfl, rfl⟩
      exact buildFingerprintString_order F visits₁ visits₂
  refine ⟨identifies, fun different keys => ⟨fun same => ?_, hash128_eq_of_hashKeyOf F keys⟩⟩
  exact different (Prod.ext (identifies.mp same).1 (identifies.mp same).2)

/-- A fingerprinting for evaluation: every rune is printable and all texts collide. -/
def oneKey : Fingerprinting := ⟨fun _ => true, fun _ => (0, 0)⟩

/-- The label of one job. -/
def jobLabel (value : GoString) : LabelMap := (∅ : LabelMap).insert (lit "job") value

theorem two_jobs_have_two_fingerprints :
    buildFingerprintString oneKey (lit "up") (jobLabel (lit "a")) [lit "job"] ≠
        buildFingerprintString oneKey (lit "up") (jobLabel (lit "b")) [lit "job"] ∧
      hashKeyOf oneKey (buildFingerprintString oneKey (lit "up") (jobLabel (lit "a")) [lit "job"]) =
        hashKeyOf oneKey
          (buildFingerprintString oneKey (lit "up") (jobLabel (lit "b")) [lit "job"]) := by
  have metric : 0x7B ∉ lit "up" := by decide
  have names : ∀ value, ∀ k ∈ jobLabel value,
      ∃ label, k = normalizeLabelName plainPlatform.toGoRuntime label := by
    intro value k member
    rcases Finmap.mem_insert.mp member with rfl | absent
    · exact ⟨lit "job", rfl⟩
    · exact absurd absent Finmap.notMem_empty
  have apart : (lit "up", jobLabel (lit "a")) ≠ (lit "up", jobLabel (lit "b")) := by
    decide +kernel
  have result := fingerprint_identifies_series oneKey plainPlatform.toGoRuntime (lit "up")
    (lit "up") (jobLabel (lit "a")) (jobLabel (lit "b")) [lit "job"] [lit "job"] metric metric
    (names _) (names _) (by decide +kernel) (by decide +kernel)
  exact ⟨(result.2 apart rfl).1, rfl⟩

end SignalAgent.Telemetry.SeriesIdentity
