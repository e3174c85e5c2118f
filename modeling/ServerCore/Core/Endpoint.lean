import ServerCore.Core.Status
import ServerCore.Core.Bytes

/-! Numeric addresses, endpoints and networks as `Endpoint.cpp` has them. -/

namespace ServerCore.Core

inductive IpFamily
  | unspecified
  | v4
  | v6
  deriving DecidableEq, Repr

/-- `IpAddress`; `bytes` are the bytes its family uses. -/
structure IpAddress where
  family : IpFamily
  bytes : Bytes
  scopeId : ℕ
  deriving DecidableEq, Repr

structure IpEndpoint where
  address : IpAddress
  port : ℕ
  deriving DecidableEq, Repr

structure IpNetwork where
  address : IpAddress
  prefixLength : ℕ
  deriving DecidableEq, Repr

def decimalValue (text : Bytes) : ℕ := text.foldl (fun value b => value * 10 + (b.toNat - 48)) 0

def decimal (limit : ℕ) (text : Bytes) : Option ℕ :=
  if text ≠ [] && text.all isDigit && decimalValue text < limit then some (decimalValue text) else none

def port (text : Bytes) : Option ℕ := decimal 65536 text

def octet (part : Bytes) : Option Byte :=
  if 3 < part.length || (1 < part.length && part.head? = some 48) then none
  else (decimal 256 part).map UInt8.ofNat

def v4Loop : ℕ → Bytes → Option Bytes
  | 0, text => if text.contains 46 then none else (octet text).map ([·])
  | dots + 1, text => do
    let dot ← text.findIdx? (· = 46)
    let b ← octet (text.take dot)
    let rest ← v4Loop dots (text.drop (dot + 1))
    some (b :: rest)

def v4 (text : Bytes) : Option Bytes := v4Loop 3 text

def hexValue (part : Bytes) : ℕ := part.foldl (fun value b => value * 16 + hexDigit b) 0

def group (part : Bytes) : Option Bytes :=
  if 4 < part.length || !part.all isHexDigit then none
  else some [UInt8.ofNat (hexValue part / 256), UInt8.ofNat (hexValue part % 256)]

/-- The loop of `Words` while so many words fit; the words are kept as their bytes. -/
def wordsLoop (allowV4 : Bool) : ℕ → Bytes → Option Bytes
  | room, text =>
    let colon := text.findIdx? (· = 58)
    let part := upTo text colon
    if part = [] then none
    else
      match room with
      | 0 => none
      | room + 1 =>
        if part.contains 46 then
          if !allowV4 || colon.isSome || room = 0 then none else v4 part
        else
          match group part with
          | none => none
          | some word =>
            match colon with
            | none => some word
            | some colon =>
              let text := text.drop (colon + 1)
              if text = [] then none else (wordsLoop allowV4 room text).map (word ++ ·)

def words (text : Bytes) (allowV4 : Bool) : Option Bytes := if text = [] then some [] else wordsLoop allowV4 8 text

def v6 (text : Bytes) : Option Bytes :=
  match find [58, 58] text with
  | none => do
    let bytes ← words text true
    if bytes.length = 16 then some bytes else none
  | some compressed =>
    if (find [58, 58] (text.drop (compressed + 2))).isSome then none
    else do
      let left ← words (text.take compressed) false
      let right ← words (text.drop (compressed + 2)) true
      if 16 ≤ left.length + right.length then none
      else some (left ++ List.replicate (16 - left.length - right.length) 0 ++ right)

namespace IpAddress

def parse (text : Bytes) : Except Status IpAddress :=
  let invalid : Except Status IpAddress := .error (.failWithoutMessage .invalidArgument)
  if text = [] || 64 < text.length then invalid
  else if !text.contains 58 then
    match v4 text with
    | some bytes => .ok ⟨.v4, bytes, 0⟩
    | none => invalid
  else
    match text.findIdx? (· = 37) with
    | none =>
      match v6 text with
      | some bytes => .ok ⟨.v6, bytes, 0⟩
      | none => invalid
    | some zone =>
      match decimal (2 ^ 32) (text.drop (zone + 1)), v6 (text.take zone) with
      | some scopeId, some bytes => .ok ⟨.v6, bytes, scopeId⟩
      | _, _ => invalid

def isV4Mapped (address : IpAddress) : Bool :=
  address.family = .v6 && (address.bytes.take 10).all (· = 0) && (address.bytes.drop 10).take 2 = [255, 255]

def normalized (address : IpAddress) : IpAddress :=
  if !address.isV4Mapped || address.scopeId ≠ 0 then address else ⟨.v4, address.bytes.drop 12, 0⟩

end IpAddress

def prefixMask (remaining : ℕ) : Byte :=
  if 8 ≤ remaining then 255 else UInt8.ofNat ((255 <<< (8 - remaining)) % 256)

def samePrefix : ℕ → Bytes → Bytes → Bool
  | _, [], _ => true
  | _, _, [] => true
  | remaining, a :: as, b :: bs =>
    a &&& prefixMask remaining == b &&& prefixMask remaining && samePrefix (remaining - 8) as bs

def IpNetwork.contains (network : IpNetwork) (address : IpAddress) : Bool :=
  network.address.family ≠ .unspecified && address.family = network.address.family &&
    samePrefix network.prefixLength address.bytes network.address.bytes

def maskBytes : ℕ → Bytes → Bytes
  | _, [] => []
  | remaining, b :: bs => (b &&& prefixMask remaining) :: maskBytes (remaining - 8) bs

def IpNetwork.parse (text : Bytes) : Except Status IpNetwork :=
  let invalid : Except Status IpNetwork := .error (.failWithoutMessage .invalidArgument)
  match text.findIdx? (· = 47) with
  | none => invalid
  | some slash =>
    if text.contains 37 then invalid
    else
      match IpAddress.parse (text.take slash), decimal (2 ^ 32) (text.drop (slash + 1)) with
      | .ok address, some prefixLength =>
        if (if address.family = .v4 then 32 else 128) < prefixLength then invalid
        else .ok ⟨{ address with bytes := maskBytes prefixLength address.bytes }, prefixLength⟩
      | _, _ => invalid

example : IpAddress.parse (ascii "10.0.0.7") = .ok ⟨.v4, [10, 0, 0, 7], 0⟩ := by decide

end ServerCore.Core
