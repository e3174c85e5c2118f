import ServerCore.Core.Utf8

/-! Route paths: percent-decoded segments, the patterns they match and the table that picks one. -/

namespace ServerCore.Web

open ServerCore.Core

def isForbidden (value : Byte) : Bool := value < 32 || value == 127 || value == 47 || value == 92

def isDotSegment (segment : Bytes) : Bool := segment == ascii "." || segment == ascii ".."

def decodeBytes : Bytes → Option Bytes
  | [] => some []
  | value :: rest =>
    if value < 33 || 127 ≤ value || value == 63 || value == 35 then none
    else if value == 37 then
      match rest with
      | high :: low :: rest =>
        match hexDigit? high, hexDigit? low with
        | some high, some low =>
          let value := UInt8.ofNat (high * 16 + low)
          if isForbidden value then none else (decodeBytes rest).map (value :: ·)
        | _, _ => none
      | _ => none
    else if isForbidden value then none
    else (decodeBytes rest).map (value :: ·)

def decodeSegment (raw : Bytes) : Option Bytes :=
  match decodeBytes raw with
  | none => none
  | some decoded => if isDotSegment decoded || !isValidUtf8 decoded then none else some decoded

def visitSegments (path : Bytes) : Option (List Bytes) :=
  match path with
  | 47 :: rest => some (rest.splitOn 47)
  | _ => none

def decodeRoutePath (rawPath : Bytes) : Option (List Bytes) := (visitSegments rawPath).bind (·.mapM decodeSegment)

structure RouteSegment where
  value : Bytes
  parameter : Bool
  deriving DecidableEq, Repr

abbrev RoutePattern := List RouteSegment

def matchesRoutePattern (pattern : RoutePattern) (path : List Bytes) : Bool :=
  pattern.length == path.length &&
    (pattern.zip path).all fun (segment, value) => if segment.parameter then !value.isEmpty else segment.value == value

def moreSpecificRoutePattern (left right : RoutePattern) : Bool :=
  left.length == right.length &&
    match (left.zip right).find? fun (l, r) => l.parameter != r.parameter with
    | some (l, _) => !l.parameter
    | none => false

structure RouteTable (μ : Type*) where
  exact : List (Bytes × μ)
  patterns : List (RoutePattern × μ)

structure RouteMatch (μ : Type*) where
  methods : Option μ := none
  path : List Bytes := []
  invalid : Bool := false

namespace RouteTable

variable {μ : Type*}

def best (path : List Bytes) (groups : List (RoutePattern × μ)) : Option (RoutePattern × μ) :=
  groups.foldl (fun found group =>
    if matchesRoutePattern group.1 path && (found.all fun best => moreSpecificRoutePattern group.1 best.1) then
      some group
    else found) none

def find (table : RouteTable μ) (path : Bytes) : RouteMatch μ :=
  match table.exact.find? (·.1 == path) with
  | some exact => { methods := some exact.2 }
  | none =>
    if table.patterns.isEmpty || path == ascii "*" then {}
    else
      match decodeRoutePath path with
      | none => { invalid := true }
      | some segments => { methods := (best segments table.patterns).map Prod.snd, path := segments }

end RouteTable

end ServerCore.Web
