import ServerCore.Core.Endpoint
import ServerCore.Web.HttpPolicy

/-! Forwarding headers as `TrustedProxy.cpp` reads them. -/

namespace ServerCore.Web

open ServerCore.Core

inductive ProxyHeaderMode
  | forwarded
  | xForwarded
  deriving DecidableEq, Repr

structure TrustedProxyOptions where
  trustedNetworks : List IpNetwork
  mode : ProxyHeaderMode
  maxHops : ℕ
  maxHeaderBytes : ℕ
  acceptProto : Bool
  acceptHost : Bool
  normalizeMappedIpv4 : Bool

structure ProxyPeer where
  transportPeer : IpEndpoint
  client : IpEndpoint
  acceptedHops : ℕ
  proto : Bytes
  host : Bytes
  deriving DecidableEq, Repr

structure Hop where
  node : Bytes
  proto : Bytes
  host : Bytes
  deriving DecidableEq, Repr

def isQuotable (b : Byte) : Bool := !(b < 32 || 127 ≤ b)

def quotedLoop (parsed : Bytes) : Bytes → Option (Bytes × Bytes)
  | [] => none
  | c :: value =>
    if c = 34 then some (parsed, value)
    else if c = 92 then
      match value with
      | [] => none
      | c :: value => if isQuotable c then quotedLoop (parsed ++ [c]) value else none
    else if isQuotable c then quotedLoop (parsed ++ [c]) value
    else none

def endsToken (b : Byte) : Bool := b = 59 || b = 44 || b = 32 || b = 9

def forwardedValue (value : Bytes) : Option (Bytes × Bytes) :=
  match value with
  | 34 :: rest => quotedLoop [] rest
  | _ =>
    let token := value.takeWhile fun b => !endsToken b
    if isToken token then some (token, value.drop token.length) else none

def forwardedPair (names : List Bytes) (value : Bytes) : Option (Bytes × Bytes × Bytes) := do
  let value := trim value
  let equal ← value.findIdx? (· = 61)
  let name := (trim (value.take equal)).map lower
  if !isToken name || names.contains name then none
  else do
    let (parsed, rest) ← forwardedValue (trim (value.drop (equal + 1)))
    some (name, parsed, trim rest)

def Hop.assign (hop : Hop) (name parsed : Bytes) : Hop :=
  if name = ascii "for" then { hop with node := parsed }
  else if name = ascii "proto" then { hop with proto := parsed }
  else if name = ascii "host" then { hop with host := parsed }
  else hop

lemma quotedLoop_length {parsed value text rest : Bytes} (h : quotedLoop parsed value = some (text, rest)) :
    rest.length < value.length := by
  fun_induction quotedLoop parsed value with
  | case1 => cases h
  | case2 parsed value =>
    obtain ⟨-, rfl⟩ := Prod.mk.inj (Option.some.inj h)
    simp
  | case3 => cases h
  | case4 parsed hq c value hc ih =>
    have := ih h
    simp only [List.length_cons]
    omega
  | case5 => cases h
  | case6 parsed c value hq hb hc ih =>
    have := ih h
    simp only [List.length_cons]
    omega
  | case7 => cases h

lemma forwardedValue_length {value text rest : Bytes} (h : forwardedValue value = some (text, rest)) :
    rest.length ≤ value.length := by
  unfold forwardedValue at h
  split at h
  · have := quotedLoop_length h
    simp only [List.length_cons]
    omega
  · simp only [Option.ite_none_right_eq_some, Option.some.injEq, Prod.mk.injEq] at h
    rw [← h.2.2, List.length_drop]
    omega

lemma forwardedPair_length {names : List Bytes} {value name parsed rest : Bytes}
    (h : forwardedPair names value = some (name, parsed, rest)) : rest.length < value.length := by
  simp only [forwardedPair] at h
  obtain ⟨equal, hequal, h⟩ := Option.bind_eq_some_iff.mp h
  split_ifs at h
  obtain ⟨⟨text, rest'⟩, hvalue, h⟩ := Option.bind_eq_some_iff.mp h
  obtain ⟨-, -, rfl⟩ : _ ∧ _ ∧ _ := by simpa using h
  have h₁ := forwardedValue_length hvalue
  have h₂ := trim_length_le rest'
  have h₃ := trim_length_le ((trim value).drop (equal + 1))
  have h₄ := trim_length_le value
  have h₅ := (List.findIdx?_eq_some_iff_getElem.mp hequal).1
  rw [List.length_drop] at h₃
  omega

/-- The inner loop of `ParseForwarded`: the pairs of one hop, and the text behind its comma. -/
def forwardedHop (names : List Bytes) (hop : Hop) (value : Bytes) : Option (Hop × Bytes) :=
  match _h : forwardedPair names value with
  | none => none
  | some (name, parsed, rest) =>
    let hop := hop.assign name parsed
    match rest with
    | [] => some (hop, [])
    | delimiter :: rest =>
      if delimiter = 44 then if trim rest = [] then none else some (hop, rest)
      else if delimiter ≠ 59 || rest = [] then none
      else forwardedHop (name :: names) hop rest
termination_by value.length
decreasing_by
  have := forwardedPair_length _h
  simp only [List.length_cons] at this
  omega

def parseForwarded (maxHops : ℕ) (value : Bytes) : Except ErrorCode (List Hop) :=
  if value = [] then .ok []
  else
    match maxHops with
    | 0 => .error .tooLarge
    | room + 1 =>
      match forwardedHop [] ⟨[], [], []⟩ value with
      | none => .error .invalidFormat
      | some (hop, rest) => do
        let hops ← parseForwarded room rest
        .ok (hop :: hops)

def listLoop (max : ℕ) (text : Bytes) : Except ErrorCode (List Bytes) :=
  let comma := text.findIdx? (· = 44)
  let part := trim (upTo text comma)
  if part = [] then .error .invalidFormat
  else
    match max with
    | 0 => .error .tooLarge
    | room + 1 =>
      match comma with
      | none => .ok [part]
      | some comma => do
        let list ← listLoop room (text.drop (comma + 1))
        .ok (part :: list)

def forwardedList (text : Bytes) (max : ℕ) : Except ErrorCode (List Bytes) := if text = [] then .ok [] else listLoop max text

def node (text : Bytes) (forwarded : Bool) : Option (Option IpEndpoint) :=
  if text = [] || equalInsensitive text (ascii "unknown") || text.head? = some 95 then some none
  else do
    let (address, portNumber) ←
      if text.head? = some 91 then
        match text.findIdx? (· = 93) with
        | none => none
        | some close =>
          if close + 1 < text.length then
            if text[close + 1]? ≠ some 58 then none
            else (port (text.drop (close + 2))).map fun n => ((text.take close).drop 1, n)
          else some ((text.take close).drop 1, 0)
      else if forwarded then
        match text.findIdx? (· = 58) with
        | none => some (text, 0)
        | some colon => (port (text.drop (colon + 1))).map fun n => (text.take colon, n)
      else some (text, 0)
    let parsed ← (IpAddress.parse address).toOption
    if parsed.scopeId ≠ 0 then none
    else if forwarded && parsed.family = .v6 && text.head? ≠ some 91 then none
    else some (some ⟨parsed, portNumber⟩)

def isHostByte (b : Byte) : Bool := b = 46 || b = 45 || isDigit b || (97 ≤ lower b && lower b ≤ 122)

def isAuthorityByte (b : Byte) : Bool := !(b ≤ 32 || 127 ≤ b || (ascii "/@\\?#,;\"").contains b)

def authority (text : Bytes) : Bool :=
  if text = [] || 255 < text.length || !text.all isAuthorityByte then false
  else if text.head? = some 91 then
    match text.findIdx? (· = 93) with
    | none => false
    | some close =>
      if close < 2 then false
      else
        match IpAddress.parse ((text.take close).drop 1) with
        | .error _ => false
        | .ok ip =>
          if ip.family ≠ .v6 || ip.scopeId ≠ 0 then false
          else if close + 1 = text.length then true
          else text[close + 1]? = some 58 && (port (text.drop (close + 2))).isSome
  else
    match text.findIdx? (· = 58) with
    | none => text.all isHostByte
    | some colon =>
      (port (text.drop (colon + 1))).isSome && text.take colon ≠ [] && (text.take colon).all isHostByte

namespace TrustedProxyOptions

/-- `TrustedProxyPolicy::Create`; a mode is one of the two by its type. -/
def create (options : TrustedProxyOptions) : Except ErrorCode TrustedProxyOptions :=
  if options.maxHops = 0 || 256 < options.maxHops || options.maxHeaderBytes = 0 ||
      1024 * 1024 < options.maxHeaderBytes || 256 < options.trustedNetworks.length then .error .invalidArgument
  else .ok options

variable (options : TrustedProxyOptions)

def trusted (input : IpAddress) : Bool :=
  let address := if options.normalizeMappedIpv4 then input.normalized else input
  options.trustedNetworks.any fun range => range.contains address

/-- The four texts that `Resolve` collects from the headers, and the bytes they took. -/
structure Collected where
  forwarded : Bytes
  xff : Bytes
  proto : Bytes
  host : Bytes
  bytes : ℕ

inductive Destination
  | forwarded
  | xff
  | proto
  | host
  deriving DecidableEq

def destination (name : Bytes) : Option Destination :=
  if options.mode = .forwarded && equalInsensitive name (ascii "forwarded") then some .forwarded
  else if options.mode = .xForwarded && equalInsensitive name (ascii "x-forwarded-for") then some .xff
  else if options.mode = .xForwarded && options.acceptProto && equalInsensitive name (ascii "x-forwarded-proto") then
    some .proto
  else if options.mode = .xForwarded && options.acceptHost && equalInsensitive name (ascii "x-forwarded-host") then
    some .host
  else none

def appendValue (text value : Bytes) : Bytes := if text = [] then value else text ++ 44 :: value

def Collected.append (c : Collected) (value : Bytes) : Destination → Collected
  | .forwarded => { c with forwarded := appendValue c.forwarded value }
  | .xff => { c with xff := appendValue c.xff value }
  | .proto => { c with proto := appendValue c.proto value }
  | .host => { c with host := appendValue c.host value }

def collect (c : Collected) : HttpHeaders → Except ErrorCode Collected
  | [] => .ok c
  | (name, value) :: headers =>
    match options.destination name with
    | none => collect c headers
    | some destination =>
      if options.maxHeaderBytes - c.bytes ≤ value.length then .error .tooLarge
      else collect { c.append value destination with bytes := c.bytes + value.length + 1 } headers

def aligned (count : ℕ) (values : List Bytes) (index : ℕ) : Bytes :=
  if index + values.length < count then [] else (values[index + values.length - count]?).getD []

def alignedHops (nodes protocols hosts : List Bytes) : List Hop :=
  nodes.mapIdx fun index node => ⟨node, aligned nodes.length protocols index, aligned nodes.length hosts index⟩

def hops (c : Collected) : Except ErrorCode (List Hop) :=
  match options.mode with
  | .forwarded => parseForwarded options.maxHops c.forwarded
  | .xForwarded => do
    let nodes ← forwardedList c.xff options.maxHops
    let protocols ← forwardedList c.proto options.maxHops
    let hosts ← forwardedList c.host options.maxHops
    .ok (alignedHops nodes protocols hosts)

def acceptHop (result : ProxyPeer) (hop : Hop) : Except ErrorCode (Option ProxyPeer) :=
  match node hop.node (options.mode = .forwarded) with
  | none => .error .invalidFormat
  | some none => .ok none
  | some (some endpoint) =>
    if options.acceptProto && hop.proto ≠ [] && hop.proto ≠ ascii "http" && hop.proto ≠ ascii "https" then
      .error .invalidFormat
    else if options.acceptHost && hop.host ≠ [] && !authority hop.host then .error .invalidFormat
    else
      .ok (some ⟨result.transportPeer, endpoint, result.acceptedHops + 1,
        if options.acceptProto then hop.proto else [], if options.acceptHost then hop.host else []⟩)

def walk (result : ProxyPeer) : List Hop → Except ErrorCode ProxyPeer
  | [] => .ok result
  | hop :: hops =>
    if !options.trusted result.client.address then .ok result
    else
      match options.acceptHop result hop with
      | .error code => .error code
      | .ok none => .ok result
      | .ok (some result) => walk result hops

def resolve (peer : IpEndpoint) (headers : HttpHeaders) : Except ErrorCode ProxyPeer :=
  if peer.address.family = .unspecified then .error .invalidArgument
  else
    let result : ProxyPeer := ⟨peer, peer, 0, [], []⟩
    if !options.trusted peer.address then .ok result
    else do
      let c ← options.collect ⟨[], [], [], [], 0⟩ headers
      let hops ← options.hops c
      options.walk result hops.reverse

end TrustedProxyOptions

end ServerCore.Web
