/- MID: SignalAgent/Control/QueryTunnel
   layer: model
   source: components/edgecontroller/query_handler.go, components/edgecontroller/extension.go
   digest: One pushed query: target, method and path check, the local call and its response. -/

import SignalAgent.Foundations.GoPath
import SignalAgent.Foundations.GoStrings

set_option autoImplicit false
set_option relaxedAutoImplicit false

namespace SignalAgent.Control.QueryTunnel

open Foundations.GoPath Foundations.GoStrings Foundations.GoText

def maxMessageBytes : Nat := 16 * 1024 * 1024

def maxConcurrentQueries : Nat := 8

def maxQueryResponseBytes : Nat := maxMessageBytes - 1024 * 1024

/-- The enumeration is open: a peer may send a number this build does not know. -/
inductive QueryTarget where
  | vm
  | loki
  | tempo
  | unrecognized (number : Int)
  deriving DecidableEq

structure Header where
  name : GoString
  values : List GoString
  deriving DecidableEq

structure QueryRequest where
  method : GoString
  path : GoString
  rawQuery : GoString
  body : GoString
  headers : List Header
  target : QueryTarget
  deriving DecidableEq

structure QueryResponse where
  statusCode : Int
  body : GoString
  headers : List Header
  error : GoString
  deriving DecidableEq

/-- The query URLs of the extension's configuration; an empty one disables its target. -/
structure QueryURLs where
  localVMQueryURL : GoString
  localLokiQueryURL : GoString
  localTempoQueryURL : GoString
  deriving DecidableEq

/-- The HTTP call as it leaves the handler; the base URL keeps its scheme and host. -/
structure HttpCall where
  baseURL : GoString
  method : GoString
  path : GoString
  rawQuery : GoString
  headers : List (GoString × GoString)
  body : GoString
  deriving DecidableEq

/-- An HTTP response; reading its body up to the limit may fail. -/
structure HttpResponse where
  statusCode : Int
  body : Except GoString GoString
  header : GoString → List GoString

/-- URL parsing, request building and the local stores behind the client, with their error
texts. -/
structure Network where
  parses : GoString → Bool
  buildError : HttpCall → Option GoString
  perform : HttpCall → Except GoString HttpResponse

def methodGet : GoString := lit "GET"
def methodPost : GoString := lit "POST"

/-- What a target's check accepts besides the method: whole paths, paths from a prefix to
`/values`, and paths behind a prefix. Every test of the source only ever accepts, so the order
of the last two, which differs between the targets, is immaterial. -/
structure AllowList where
  endpoints : List GoString
  valuesPrefixes : List GoString
  prefixes : List GoString

def AllowList.allows (list : AllowList) (method cleanPath : GoString) : Bool :=
  if method ≠ methodGet && method ≠ methodPost then false
  else if cleanPath ∈ list.endpoints then true
  else if list.valuesPrefixes.any (hasPrefix cleanPath) && hasSuffix cleanPath (lit "/values") then
    true
  else list.prefixes.any (hasPrefix cleanPath)

theorem AllowList.allows_eq_true_iff (list : AllowList) (method cleanPath : GoString) :
    list.allows method cleanPath = true ↔
      (method = methodGet ∨ method = methodPost) ∧
        (cleanPath ∈ list.endpoints ∨
          ((∃ pre ∈ list.valuesPrefixes, pre <+: cleanPath) ∧ lit "/values" <:+ cleanPath) ∨
            ∃ pre ∈ list.prefixes, pre <+: cleanPath) := by
  have read : ((method ≠ methodGet && method ≠ methodPost) = true) ↔
      ¬ (method = methodGet ∨ method = methodPost) := by simp
  have ending : (list.valuesPrefixes.any (hasPrefix cleanPath) &&
      hasSuffix cleanPath (lit "/values")) = true ↔
        (∃ pre ∈ list.valuesPrefixes, pre <+: cleanPath) ∧ lit "/values" <:+ cleanPath := by
    simp [hasPrefix, hasSuffix]
  have lead : list.prefixes.any (hasPrefix cleanPath) = true ↔
      ∃ pre ∈ list.prefixes, pre <+: cleanPath := by
    simp [hasPrefix]
  unfold AllowList.allows
  simp only [read, ending]
  split_ifs with other whole values
  · exact iff_of_true rfl ⟨other, Or.inl whole⟩
  · exact iff_of_true rfl ⟨other, Or.inr (Or.inl values)⟩
  · rw [lead]
    constructor
    · exact fun behind => ⟨other, Or.inr (Or.inr behind)⟩
    · rintro ⟨-, endpoint | shown | behind⟩
      · exact absurd endpoint whole
      · exact absurd shown values
      · exact behind
  · exact iff_of_false not_false (fun accepted => other accepted.1)

def vmPaths : AllowList where
  endpoints := [lit "/api/v1/query", lit "/api/v1/query_range", lit "/api/v1/series",
    lit "/api/v1/labels", lit "/api/v1/metadata"]
  valuesPrefixes := [lit "/api/v1/label/"]
  prefixes := [lit "/api/v1/status/"]

def lokiPaths : AllowList where
  endpoints := [lit "/loki/api/v1/query", lit "/loki/api/v1/query_range",
    lit "/loki/api/v1/labels", lit "/loki/api/v1/series", lit "/loki/api/v1/index/stats",
    lit "/loki/api/v1/index/volume", lit "/loki/api/v1/patterns"]
  valuesPrefixes := [lit "/loki/api/v1/label/"]
  prefixes := []

def tempoPaths : AllowList where
  endpoints := [lit "/api/echo", lit "/api/search", lit "/api/search/tags",
    lit "/api/v2/search/tags"]
  valuesPrefixes := [lit "/api/search/tag/", lit "/api/v2/search/tag/"]
  prefixes := [lit "/api/traces/", lit "/api/v2/traces/"]

def isAllowedVMPath (method cleanPath : GoString) : Bool := vmPaths.allows method cleanPath

def isAllowedLokiPath (method cleanPath : GoString) : Bool := lokiPaths.allows method cleanPath

def isAllowedTempoPath (method cleanPath : GoString) : Bool := tempoPaths.allows method cleanPath

def errResp (status : Int) (msg : GoString) : QueryResponse := ⟨status, [], [], msg⟩

/-- The base URL and the check of a target, or why the target is disabled. -/
def resolveTarget (urls : QueryURLs) (target : QueryTarget) :
    Except GoString (GoString × (GoString → GoString → Bool)) :=
  match target with
  | .loki =>
    if urls.localLokiQueryURL = [] then
      .error (lit "query disabled: local_loki_query_url not configured")
    else .ok (urls.localLokiQueryURL, isAllowedLokiPath)
  | .tempo =>
    if urls.localTempoQueryURL = [] then
      .error (lit "query disabled: local_tempo_query_url not configured")
    else .ok (urls.localTempoQueryURL, isAllowedTempoPath)
  | .vm | .unrecognized _ =>
    if urls.localVMQueryURL = [] then
      .error (lit "query disabled: local_vm_query_url not configured")
    else .ok (urls.localVMQueryURL, isAllowedVMPath)

/-- The method of the call; `beyond` is the upper-case table beyond ASCII. -/
def requestMethod (beyond : Nat → Nat) (req : QueryRequest) : GoString :=
  let method := toUpper beyond req.method
  if method = [] then methodGet else method

def requestPath (req : QueryRequest) : GoString :=
  clean (lit "/" ++ trimPrefix req.path (lit "/"))

def requestHeaders (req : QueryRequest) : List (GoString × GoString) :=
  (req.headers.filter (fun h => !equalFoldAscii h.name (lit "Host"))).flatMap
    (fun h => h.values.map (fun v => (h.name, v)))

def forwardedHeaders (resp : HttpResponse) : List Header :=
  [lit "Content-Type", lit "Content-Encoding"].filterMap (fun name =>
    if resp.header name = [] then none else some ⟨name, resp.header name⟩)

/-- The response of the store, bounded by the message limit. -/
def relay (resp : HttpResponse) : QueryResponse :=
  match resp.body with
  | .error cause => errResp 502 (lit "read response: " ++ cause)
  | .ok content =>
    let body := content.take (maxQueryResponseBytes + 1)
    if maxQueryResponseBytes < body.length then errResp 413 (lit "response too large")
    else ⟨resp.statusCode, body, forwardedHeaders resp, []⟩

/-- One query while `inFlight` others run: the call it makes, if any, and the one response it
sends. -/
def handleQueryRequest (beyond : Nat → Nat) (urls : QueryURLs) (net : Network) (inFlight : Nat)
    (req : QueryRequest) : Option HttpCall × QueryResponse :=
  if maxConcurrentQueries ≤ inFlight then (none, errResp 429 (lit "too many concurrent queries"))
  else
    match resolveTarget urls req.target with
    | .error msg => (none, errResp 503 msg)
    | .ok (baseURL, isAllowed) =>
      let method := requestMethod beyond req
      let cleanPath := requestPath req
      if isAllowed method cleanPath = false then (none, errResp 403 (lit "path not allowed"))
      else if net.parses baseURL = false then
        (none, errResp 500 (lit "invalid local query base url"))
      else
        let call : HttpCall :=
          ⟨baseURL, method, cleanPath, req.rawQuery, requestHeaders req, req.body⟩
        match net.buildError call with
        | some cause => (none, errResp 500 (lit "build request: " ++ cause))
        | none =>
          match net.perform call with
          | .error cause => (some call, errResp 502 (lit "local store unreachable: " ++ cause))
          | .ok resp => (some call, relay resp)

/-- The check of a target. -/
def allowListOf : QueryTarget → AllowList
  | .loki => lokiPaths
  | .tempo => tempoPaths
  | .vm | .unrecognized _ => vmPaths

theorem resolveTarget_ok {urls : QueryURLs} {target : QueryTarget} {baseURL : GoString}
    {isAllowed : GoString → GoString → Bool}
    (resolved : resolveTarget urls target = .ok (baseURL, isAllowed)) :
    isAllowed = (allowListOf target).allows := by
  unfold resolveTarget at resolved
  split at resolved <;> split at resolved <;> cases resolved <;> rfl

theorem call_of_handleQueryRequest {beyond : Nat → Nat} {urls : QueryURLs} {net : Network}
    {inFlight : Nat} {req : QueryRequest} {call : HttpCall}
    (made : (handleQueryRequest beyond urls net inFlight req).1 = some call) :
    call.method = requestMethod beyond req ∧ call.path = requestPath req ∧
      (allowListOf req.target).allows call.method call.path = true := by
  unfold handleQueryRequest at made
  split at made
  · cases made
  split at made
  · cases made
  · rename_i baseURL isAllowed resolved
    rw [resolveTarget_ok resolved] at made
    dsimp only at made
    split at made
    · cases made
    rename_i allowed
    split at made
    · cases made
    split at made
    · cases made
    have accepted : (allowListOf req.target).allows (requestMethod beyond req) (requestPath req) =
        true := by simpa using allowed
    split at made <;> cases made <;> exact ⟨rfl, rfl, accepted⟩

theorem exists_call {beyond : Nat → Nat} {req : QueryRequest}
    (allowed : (allowListOf req.target).allows (requestMethod beyond req) (requestPath req) =
      true) :
    ∃ urls net call, (handleQueryRequest beyond urls net 0 req).1 = some call := by
  let base : GoString := lit "http://store"
  let urls : QueryURLs := ⟨base, base, base⟩
  let net : Network := ⟨fun _ => true, fun _ => none, fun _ => .error []⟩
  have configured : base ≠ [] := by decide
  have resolved : resolveTarget urls req.target = .ok (base, (allowListOf req.target).allows) := by
    cases req.target <;> rw [resolveTarget, if_neg configured] <;> rfl
  refine ⟨urls, net, ⟨base, requestMethod beyond req, requestPath req, req.rawQuery,
    requestHeaders req, req.body⟩, ?_⟩
  rw [handleQueryRequest, if_neg (by decide), resolved]
  dsimp only
  rw [if_neg (by simp [allowed])]
  rfl

end SignalAgent.Control.QueryTunnel
