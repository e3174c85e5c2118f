import ServerCore.Core.Status
import ServerCore.Core.Utf8
import ServerCore.Web.HttpParser
import ServerCore.Web.RequestData
import ServerCore.Web.RoutePattern

/-! The policy pipeline: rules under canonical path prefixes, evaluated in order on the canonical
path of a request. -/

namespace ServerCore.Web

open ServerCore.Core
open RequestData (percentDecodeComponent)

def maxPathBytes : ℕ := 16384

def canonicalPart (raw : Bytes) : Except ErrorCode Bytes :=
  match percentDecodeComponent raw false maxPathBytes with
  | .error status => .error status.code
  | .ok part => if isDotSegment part || part.any isForbidden then .error .invalidFormat else .ok part

def canonicalLoop (path : Bytes) : List Bytes → Except ErrorCode Bytes
  | [] => .ok path
  | [raw] => (canonicalPart raw).map (path ++ ·)
  | raw :: rest =>
    match canonicalPart raw with
    | .error code => .error code
    | .ok part => canonicalLoop (path ++ part ++ [47]) rest

def canonicalPath (raw : Bytes) : Except ErrorCode Bytes :=
  match raw with
  | [] => .error .invalidFormat
  | first :: rest =>
    if first != 47 || maxPathBytes < raw.length || raw.any (fun b => b == 63 || b == 35) then .error .invalidFormat
    else canonicalLoop [47] (rest.splitOn 47)

def prefixApplies (path pathPrefix : Bytes) : Bool :=
  pathPrefix == [47] ||
    (startsWith path pathPrefix && (path.length == pathPrefix.length || path[pathPrefix.length]? == some 47))

def HttpRequest.path (request : HttpRequest) : Bytes := upTo request.target (Core.find (ascii "?") request.target)

abbrev HttpHeaders := List (Bytes × Bytes)

structure HttpResponse where
  status : ℕ := 200
  headers : HttpHeaders := []
  body : Bytes := []
  close : Bool := false

structure HttpPolicyResult where
  responseHeaders : HttpHeaders := []
  attributes : HttpHeaders := []
  response : Option HttpResponse := none

abbrev HttpPolicyStep := HttpRequest → Bool → Except ErrorCode HttpPolicyResult

/-- A rule as it is given; a missing step is `none`. -/
structure HttpPolicyRule where
  pathPrefix : Bytes := ascii "/"
  step : Option HttpPolicyStep

structure HttpPolicyLimits where
  maxRules : ℕ := 64
  maxMetadataBytes : ℕ := 16384
  maxResponseBodyBytes : ℕ := 256 * 1024

def policyHeader (name value : Bytes) : Bool :=
  isToken name && validHeaderValue value &&
    [ascii "content-length", ascii "transfer-encoding", ascii "connection", ascii "trailer", ascii "upgrade"].all
      fun reserved => !equalInsensitive name reserved

def account (fields : HttpHeaders) (bytes max : ℕ) (headers : Bool) : Option ℕ :=
  if 256 < fields.length then none
  else
    fields.foldlM (fun bytes (name, value) =>
      if headers && !policyHeader name value then none
      else if max - bytes < name.length then none
      else if max - (bytes + name.length) < value.length then none
      else some (bytes + name.length + value.length)) bytes

def setHeader (headers : HttpHeaders) (name value : Bytes) : HttpHeaders :=
  (if equalInsensitive name (ascii "set-cookie") then headers
    else headers.filter fun item => !equalInsensitive item.1 name) ++ [(name, value)]

def merge (target source : HttpHeaders) (headers : Bool) : HttpHeaders :=
  source.foldl (fun target (name, value) =>
    if headers then
      let value :=
        if equalInsensitive name (ascii "vary") then
          target.foldl (fun value previous =>
            if equalInsensitive previous.1 (ascii "vary") then previous.2 ++ ascii ", " ++ value else value) value
        else value
      setHeader target name value
    else target.filter (fun item => item.1 != name) ++ [(name, value)]) target

structure PipelineRule where
  pathPrefix : Bytes
  step : HttpPolicyStep

structure HttpPolicyPipeline where
  rules : List PipelineRule
  limits : HttpPolicyLimits

namespace HttpPolicyPipeline

def dropSlash (path : Bytes) : Bytes := if 1 < path.length ∧ path.getLast? = some 47 then path.dropLast else path

def createRules (limits : HttpPolicyLimits) : ℕ → List HttpPolicyRule → Except ErrorCode (List PipelineRule)
  | _, [] => .ok []
  | bytes, rule :: rules =>
    match rule.step, canonicalPath rule.pathPrefix with
    | none, _ => .error .invalidArgument
    | some _, .error _ => .error .invalidArgument
    | some step, .ok path =>
      if limits.maxMetadataBytes - bytes < (dropSlash path).length then .error .tooLarge
      else (createRules limits (bytes + (dropSlash path).length) rules).map (⟨dropSlash path, step⟩ :: ·)

def create (rules : List HttpPolicyRule) (limits : HttpPolicyLimits) : Except ErrorCode HttpPolicyPipeline :=
  if limits.maxRules = 0 ∨ 256 < limits.maxRules ∨ limits.maxRules < rules.length ∨ limits.maxMetadataBytes = 0 ∨
      1024 * 1024 < limits.maxMetadataBytes ∨ limits.maxResponseBodyBytes = 0 ∨
      16 * 1024 * 1024 < limits.maxResponseBodyBytes then .error .invalidArgument
  else (createRules limits 0 rules).map fun rules => ⟨rules, limits⟩

/-- What a step's result makes of the result so far; `true` ends the evaluation. -/
def absorb (limits : HttpPolicyLimits) (result value : HttpPolicyResult) : Option (HttpPolicyResult × Bool) := do
  let size ← account value.responseHeaders 0 limits.maxMetadataBytes true
  let _ ← account value.attributes size limits.maxMetadataBytes false
  let responseHeaders := merge result.responseHeaders value.responseHeaders true
  let attributes := merge result.attributes value.attributes false
  let size ← account responseHeaders 0 limits.maxMetadataBytes true
  let size ← account attributes size limits.maxMetadataBytes false
  match value.response with
  | none => return ({ result with responseHeaders, attributes }, false)
  | some response =>
    if limits.maxResponseBodyBytes < response.body.length then failure
    let _ ← account response.headers size limits.maxMetadataBytes true
    let headers := merge responseHeaders response.headers true
    return ({ responseHeaders := [], attributes, response := some { response with headers } }, true)

def evaluateRules (limits : HttpPolicyLimits) (request : HttpRequest) (upgrade : Bool) (path : Bytes) :
    List PipelineRule → HttpPolicyResult → Except ErrorCode HttpPolicyResult
  | [], result => .ok result
  | rule :: rules, result =>
    if prefixApplies path rule.pathPrefix then
      match rule.step request upgrade with
      | .error code => .error code
      | .ok value =>
        match absorb limits result value with
        | none => .error .tooLarge
        | some (result, true) => .ok result
        | some (result, false) => evaluateRules limits request upgrade path rules result
    else evaluateRules limits request upgrade path rules result

def evaluate (pipeline : HttpPolicyPipeline) (request : HttpRequest) (upgrade : Bool) :
    Except ErrorCode HttpPolicyResult :=
  match canonicalPath request.path with
  | .error code => .error code
  | .ok path => evaluateRules pipeline.limits request upgrade path pipeline.rules {}

def applicable (pipeline : HttpPolicyPipeline) (rawPath : Bytes) : List PipelineRule :=
  match canonicalPath rawPath with
  | .error _ => []
  | .ok path => pipeline.rules.filter fun rule => prefixApplies path rule.pathPrefix

end HttpPolicyPipeline

end ServerCore.Web
