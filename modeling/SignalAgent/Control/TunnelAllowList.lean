/- MID: SignalAgent/Control/TunnelAllowList
   layer: results
   source: components/edgecontroller/query_handler.go, docs/architecture.md
   digest: The paths the query tunnel reaches, against the documented read endpoints. -/

import SignalAgent.Control.QueryTunnel

set_option autoImplicit false
set_option relaxedAutoImplicit false

namespace SignalAgent.Control.TunnelAllowList

open Foundations.GoPath Foundations.GoStrings Foundations.GoText QueryTunnel

/-- A documented family of paths below a stem: `<stem>/<name>/values`, `<stem>/<id>` with one
segment, or `<stem>/*`. -/
inductive Family where
  | values (stem : GoString)
  | one (stem : GoString)
  | below (stem : GoString)
  deriving DecidableEq

namespace Family

def stem : Family → GoString
  | values stem | one stem | below stem => stem

/-- The stem with the slash behind it. -/
def root (f : Family) : GoString := f.stem ++ [0x2F]

/-- The texts the documentation has behind the root. -/
def Admits : Family → GoString → Prop
  | values _, rest => ∃ name, Element name ∧ rest = name ++ lit "/values"
  | one _, id => Element id
  | below _, rest => rest ≠ []

/-- What the source tests of a path. -/
def Accepts : Family → GoString → Prop
  | values stem, path => stem ++ [0x2F] <+: path ∧ lit "/values" <:+ path
  | one stem, path | below stem, path => stem ++ [0x2F] <+: path

/-- The segments behind the root are as many as the documentation has. -/
def Segmented : Family → GoString → Prop
  | values _, rest => rest.count 0x2F = 1
  | one _, rest => 0x2F ∉ rest
  | below _, _ => True

instance (f : Family) (rest : GoString) : Decidable (f.Segmented rest) := by
  cases f <;> unfold Segmented <;> infer_instance

instance (f : Family) (path : GoString) : Decidable (f.Accepts path) := by
  cases f <;> unfold Accepts <;> infer_instance

theorem prefix_of_accepts {f : Family} {path : GoString} (accepted : f.Accepts path) :
    f.root <+: path := by
  cases f with
  | values stem => exact accepted.1
  | one stem | below stem => exact accepted

theorem accepts_of_admits {f : Family} {rest : GoString} (admitted : f.Admits rest) :
    f.Accepts (f.root ++ rest) := by
  cases f with
  | values stem =>
    obtain ⟨name, -, rfl⟩ := admitted
    refine ⟨List.prefix_append _ _, ?_⟩
    rw [← List.append_assoc]
    exact List.suffix_append _ _
  | one stem | below stem => exact List.prefix_append _ _

end Family

/-- The documented paths of one target. No path belongs to two of the families, and no endpoint
to one. -/
structure ReadPaths where
  endpoints : List GoString
  families : List Family
  endpoints_apart : ∀ path ∈ endpoints, ∀ f ∈ families, ¬ f.root <+: path
  families_apart : ∀ f ∈ families, ∀ g ∈ families, f.root <+: g.root → f = g
  stems_present : ∀ f ∈ families, f.stem ≠ []

def ReadPaths.Documented (paths : ReadPaths) (path : GoString) : Prop :=
  path ∈ paths.endpoints ∨ ∃ f ∈ paths.families, ∃ rest, path = f.root ++ rest ∧ f.Admits rest

def vmReadPaths : ReadPaths where
  endpoints := [lit "/api/v1/query", lit "/api/v1/query_range", lit "/api/v1/series",
    lit "/api/v1/labels", lit "/api/v1/metadata"]
  families := [.values (lit "/api/v1/label"), .below (lit "/api/v1/status")]
  endpoints_apart := by decide
  families_apart := by decide
  stems_present := by decide

def lokiReadPaths : ReadPaths where
  endpoints := [lit "/loki/api/v1/query", lit "/loki/api/v1/query_range",
    lit "/loki/api/v1/labels", lit "/loki/api/v1/series", lit "/loki/api/v1/index/stats",
    lit "/loki/api/v1/index/volume", lit "/loki/api/v1/patterns"]
  families := [.values (lit "/loki/api/v1/label")]
  endpoints_apart := by decide
  families_apart := by decide
  stems_present := by decide

def tempoReadPaths : ReadPaths where
  endpoints := [lit "/api/echo", lit "/api/search", lit "/api/search/tags",
    lit "/api/v2/search/tags"]
  families := [.one (lit "/api/traces"), .one (lit "/api/v2/traces"),
    .values (lit "/api/search/tag"), .values (lit "/api/v2/search/tag")]
  endpoints_apart := by decide
  families_apart := by decide
  stems_present := by decide

/-- The documented paths of a target; a target this build does not know is served as
VictoriaMetrics. -/
def readPathsOf : QueryTarget → ReadPaths
  | .loki => lokiReadPaths
  | .tempo => tempoReadPaths
  | .vm | .unrecognized _ => vmReadPaths

def ReadMethod (method : GoString) : Prop := method = methodGet ∨ method = methodPost

/-- The tunnel reaches exactly the documented paths with this request: a call it makes is a read
of a documented path, and a documented read passes the check of its target. -/
def ReadsDocumented (beyond : Nat → Nat) (req : QueryRequest) : Prop :=
  (∀ urls net inFlight call, (handleQueryRequest beyond urls net inFlight req).1 = some call →
    ReadMethod call.method ∧ call.path = requestPath req ∧
      (readPathsOf req.target).Documented call.path) ∧
  (ReadMethod (requestMethod beyond req) → (readPathsOf req.target).Documented (requestPath req) →
    ∀ urls baseURL isAllowed, resolveTarget urls req.target = .ok (baseURL, isAllowed) →
      isAllowed (requestMethod beyond req) (requestPath req) = true)

/-- Where the source's tests of a read accept the cleaned path for a family, the path has the
segments of that family: one slash behind a label or tag root, none behind a trace root. -/
def SegmentsMatch (beyond : Nat → Nat) (req : QueryRequest) : Prop :=
  ReadMethod (requestMethod beyond req) → ∀ f ∈ (readPathsOf req.target).families,
    f.Accepts (requestPath req) → f.Segmented ((requestPath req).drop f.root.length)

section Segments

variable {names : List GoString} (elements : ∀ name ∈ names, Element name)

include elements

private theorem rest_of_rendered {front rest : GoString}
    (split : rendered names = front ++ [0x2F] ++ rest) :
    ∃ name after, Element name ∧ (∀ other ∈ after, Element other) ∧
      rest = name ++ rendered after ∧ rest.count 0x2F = after.length := by
  rw [List.append_assoc, List.singleton_append] at split
  obtain ⟨before, name, after, rfl, -, rfl⟩ := rendered_split elements split
  have element : Element name := elements name (by simp)
  have others : ∀ other ∈ after, Element other := fun other member =>
    elements other (by simp [member])
  refine ⟨name, after, element, others, rfl, ?_⟩
  rw [List.count_append, List.count_eq_zero_of_not_mem element.2, count_rendered others,
    Nat.zero_add]

private theorem admits_iff_segmented {f : Family} {rest : GoString}
    (split : rendered names = f.root ++ rest) (accepted : f.Accepts (rendered names)) :
    f.Admits rest ↔ f.Segmented rest := by
  obtain ⟨name, after, element, others, shape, slashes⟩ := rest_of_rendered elements split
  have present : rest ≠ [] := by
    rw [shape]
    exact fun empty => element.1 (List.append_eq_nil_iff.mp empty).1
  cases f with
  | below stem => exact iff_of_true present trivial
  | one stem => exact ⟨And.right, fun free => ⟨present, free⟩⟩
  | values stem =>
    show (∃ name, Element name ∧ rest = name ++ lit "/values") ↔ rest.count 0x2F = 1
    constructor
    · rintro ⟨tag, plain, rfl⟩
      have tail : (lit "/values").count 0x2F = 1 := by decide
      rw [List.count_append, List.count_eq_zero_of_not_mem plain.2, tail]
    · intro single
      obtain ⟨last, rfl⟩ := List.length_eq_one_iff.mp (slashes.symm.trans single)
      -- The accepted suffix is the last element of the path.
      obtain ⟨front, ending⟩ := accepted.2
      have whole : front ++ 0x2F :: lit "values" = (stem ++ [0x2F] ++ name) ++ 0x2F :: last := by
        calc front ++ 0x2F :: lit "values" = rendered names := ending
          _ = stem ++ [0x2F] ++ rest := split
          _ = (stem ++ [0x2F] ++ name) ++ 0x2F :: last := by
            rw [shape, rendered, List.flatMap_singleton, List.append_assoc _ name]
      have final : lit "values" = last :=
        last_element_eq (by decide) (others last (by simp)).2 whole
      refine ⟨name, element, ?_⟩
      rw [shape, ← final]
      rfl

end Segments

private theorem admits_iff {f : Family} (stem : f.stem ≠ []) {path rest : GoString}
    (split : clean (0x2F :: path) = f.root ++ rest)
    (accepted : f.Accepts (clean (0x2F :: path))) : f.Admits rest ↔ f.Segmented rest := by
  rcases clean_rooted path with slash | ⟨names, -, elements, shape⟩
  · have lengths := congrArg List.length (slash.symm.trans split)
    have positive : 0 < f.stem.length := List.length_pos_iff.mpr stem
    simp only [Family.root, List.length_append, List.length_singleton] at lengths
    omega
  · rw [shape] at split accepted
    exact admits_iff_segmented elements split accepted

private theorem allows_iff (target : QueryTarget) (method path : GoString) :
    (allowListOf target).allows method path = true ↔
      ReadMethod method ∧ (path ∈ (readPathsOf target).endpoints ∨
        ∃ f ∈ (readPathsOf target).families, f.Accepts path) := by
  rw [AllowList.allows_eq_true_iff]
  refine and_congr Iff.rfl ?_
  cases target with
  | loki =>
    have root : lit "/loki/api/v1/label/" = lit "/loki/api/v1/label" ++ [0x2F] := rfl
    simp [allowListOf, readPathsOf, lokiPaths, lokiReadPaths, Family.Accepts, root]
  | tempo =>
    have traces : lit "/api/traces/" = lit "/api/traces" ++ [0x2F] := rfl
    have traces2 : lit "/api/v2/traces/" = lit "/api/v2/traces" ++ [0x2F] := rfl
    have tag : lit "/api/search/tag/" = lit "/api/search/tag" ++ [0x2F] := rfl
    have tag2 : lit "/api/v2/search/tag/" = lit "/api/v2/search/tag" ++ [0x2F] := rfl
    simp only [allowListOf, readPathsOf, tempoPaths, tempoReadPaths, Family.Accepts, traces,
      traces2, tag, tag2, List.mem_cons, List.not_mem_nil, or_false, exists_eq_or_imp,
      exists_eq_left]
    refine or_congr Iff.rfl ?_
    -- The source tests the traces first, the common definition the tag values.
    rw [or_and_right, or_comm, or_assoc]
  | vm | unrecognized number =>
    have label : lit "/api/v1/label/" = lit "/api/v1/label" ++ [0x2F] := rfl
    have status : lit "/api/v1/status/" = lit "/api/v1/status" ++ [0x2F] := rfl
    simp [allowListOf, readPathsOf, vmPaths, vmReadPaths, Family.Accepts, label, status]

private theorem admits_of_documented {paths : ReadPaths} {f : Family} (member : f ∈ paths.families)
    {path : GoString} (accepted : f.Accepts path) (documented : paths.Documented path) :
    f.Admits (path.drop f.root.length) := by
  have lead := Family.prefix_of_accepts accepted
  rcases documented with endpoint | ⟨g, other, rest, rfl, admitted⟩
  · exact absurd lead (paths.endpoints_apart path endpoint f member)
  · have same : f = g := by
      rcases List.prefix_or_prefix_of_prefix lead (List.prefix_append g.root rest) with fg | gf
      · exact paths.families_apart f member g other fg
      · exact (paths.families_apart g other f member gf).symm
    rw [same, List.drop_left]
    exact admitted

private theorem requestPath_rooted (req : QueryRequest) :
    ∃ path, requestPath req = clean (0x2F :: path) := ⟨_, rfl⟩

private theorem accepts_of_documented {paths : ReadPaths} {path : GoString}
    (documented : paths.Documented path) :
    path ∈ paths.endpoints ∨ ∃ f ∈ paths.families, f.Accepts path := by
  rcases documented with endpoint | ⟨f, member, rest, rfl, admitted⟩
  · exact Or.inl endpoint
  · exact Or.inr ⟨f, member, Family.accepts_of_admits admitted⟩

private theorem documented_iff {paths : ReadPaths} {path : GoString}
    (accepted : clean (0x2F :: path) ∈ paths.endpoints ∨
      ∃ f ∈ paths.families, f.Accepts (clean (0x2F :: path))) :
    paths.Documented (clean (0x2F :: path)) ↔
      ∀ f ∈ paths.families, f.Accepts (clean (0x2F :: path)) →
        f.Segmented ((clean (0x2F :: path)).drop f.root.length) := by
  have behind : ∀ f ∈ paths.families, f.Accepts (clean (0x2F :: path)) →
      (f.Admits ((clean (0x2F :: path)).drop f.root.length) ↔
        f.Segmented ((clean (0x2F :: path)).drop f.root.length)) := by
    intro f member passed
    have split := (List.prefix_iff_eq_append.mp (Family.prefix_of_accepts passed)).symm
    exact admits_iff (paths.stems_present f member) split passed
  constructor
  · intro documented f member passed
    exact (behind f member passed).mp (admits_of_documented member passed documented)
  · intro segmented
    rcases accepted with endpoint | ⟨f, member, passed⟩
    · exact Or.inl endpoint
    · have split := (List.prefix_iff_eq_append.mp (Family.prefix_of_accepts passed)).symm
      exact Or.inr ⟨f, member, _, split, (behind f member passed).mpr (segmented f member passed)⟩

/-- The tunnel reaches exactly the documented read endpoints with a request if and only if the
segments of the cleaned path match wherever a family's tests accept it. -/
theorem readsDocumented_iff (beyond : Nat → Nat) (req : QueryRequest) :
    ReadsDocumented beyond req ↔ SegmentsMatch beyond req := by
  obtain ⟨path, rooted⟩ := requestPath_rooted req
  have checked := allows_iff req.target (requestMethod beyond req) (requestPath req)
  constructor
  · rintro ⟨reached, -⟩ read f member passed
    have allowed := checked.mpr ⟨read, Or.inr ⟨f, member, passed⟩⟩
    obtain ⟨urls, net, call, made⟩ := exists_call allowed
    obtain ⟨-, same, documented⟩ := reached urls net 0 call made
    rw [same, rooted] at documented
    rw [rooted] at passed ⊢
    exact (documented_iff (Or.inr ⟨f, member, passed⟩)).mp documented f member passed
  · intro segments
    constructor
    · intro urls net inFlight call made
      obtain ⟨method, same, allowed⟩ := call_of_handleQueryRequest made
      rw [method, same] at allowed ⊢
      obtain ⟨read, accepted⟩ := checked.mp allowed
      have matching := segments read
      rw [rooted] at accepted matching ⊢
      exact ⟨read, rfl, (documented_iff accepted).mpr matching⟩
    · intro read documented urls baseURL isAllowed resolved
      rw [resolveTarget_ok resolved]
      exact checked.mpr ⟨read, accepts_of_documented documented⟩

/-- A label-values query that lacks the label's name. -/
def namelessLabelQuery : QueryRequest where
  method := lit "GET"
  path := lit "/api/v1/label/values"
  rawQuery := []
  body := []
  headers := []
  target := .vm

/-- The prefix and the suffix overlap in the slash: a path without a name is reached. -/
theorem nameless_label_reached :
    requestPath namelessLabelQuery = lit "/api/v1/label/values" ∧
      ∀ beyond, ¬ ReadsDocumented beyond namelessLabelQuery ∧
        ∃ urls net call, (handleQueryRequest beyond urls net 0 namelessLabelQuery).1 = some call ∧
          call.path = lit "/api/v1/label/values" := by
  have path : requestPath namelessLabelQuery = lit "/api/v1/label/values" := by decide
  refine ⟨path, fun beyond => ?_⟩
  have method : requestMethod beyond namelessLabelQuery = methodGet := rfl
  have passed : (Family.values (lit "/api/v1/label")).Accepts (lit "/api/v1/label/values") := by
    decide
  have member : Family.values (lit "/api/v1/label") ∈
      (readPathsOf namelessLabelQuery.target).families := by decide
  have allowed : (allowListOf namelessLabelQuery.target).allows
      (requestMethod beyond namelessLabelQuery) (requestPath namelessLabelQuery) = true := by
    rw [method, path]
    decide
  obtain ⟨urls, net, call, made⟩ := exists_call allowed
  have same := (call_of_handleQueryRequest made).2.1
  refine ⟨?_, urls, net, call, made, same.trans path⟩
  rintro ⟨reached, -⟩
  have documented := (reached urls net 0 call made).2.2
  rw [same, path] at documented
  obtain ⟨name, -, rest⟩ := admits_of_documented member passed documented
  have lengths := congrArg List.length rest
  rw [List.length_append] at lengths
  revert lengths
  have left : ((lit "/api/v1/label/values").drop
    (Family.values (lit "/api/v1/label")).root.length).length = 6 := by decide
  have right : (lit "/values").length = 7 := by decide
  rw [left, right]
  omega

end SignalAgent.Control.TunnelAllowList
