import ServerCore.Protocol.Envelope

/-! The message envelope of `Message.cpp`: reading one from a frame's body, writing one, and
assembling one around values that were written before. -/

namespace ServerCore.Protocol

open ServerCore.Core ServerCore.Foundations

namespace JsonValue

def find (key : Bytes) : JsonValue → Option JsonValue
  | .object members => members.lookup key
  | _ => none

def isObject : JsonValue → Bool
  | .object _ => true
  | _ => false

def isString : JsonValue → Bool
  | .string _ => true
  | _ => false

end JsonValue

structure MessageFields where
  type : Bytes
  body : Option JsonValue
  sequence : Option JsonValue
  error : Option JsonValue

structure Message where
  type : Bytes
  body : Option JsonValue
  sequence : Option JsonValue
  error : Option JsonValue
  rawBodySize : ℕ

def Message.fields (m : Message) : MessageFields := ⟨m.type, m.body, m.sequence, m.error⟩

/-- A value that `PrepareJsonValue` has written; moving it away leaves it empty. -/
structure PreparedJsonValue where
  bytes : Bytes

structure PreparedMessage where
  bytes : Bytes

namespace Json

def isErrorEnvelope (value : JsonValue) : Bool := value.isObject && (value.find (ascii "code")).any JsonValue.isString

def validateFields (fields : MessageFields) (failureCode : ErrorCode) : Except Status Unit :=
  if fields.type = [] then .error (.fail failureCode "a message type must not be empty")
  else if fields.body.isNone && fields.error.isNone then
    .error (.fail failureCode "a message requires body or error")
  else if fields.body.any fun body => !body.isObject then
    .error (.fail failureCode "a message body must be a JSON object")
  else if fields.error.any fun error => !isErrorEnvelope error then
    .error (.fail failureCode "a message error requires an object with string code")
  else .ok ()

def invalidEnvelope (message : String) : Status := .fail .invalidFormat message

def parseMessage (charconv : Charconv) (jsonBody : Bytes) (maxValues : ℕ) : Except Status Message := do
  let document ← parseEnvelopeText charconv jsonBody maxValues
  if !document.isObject then .error (invalidEnvelope "the message envelope is not an object")
  else
    match document.members.lookup (ascii "type") with
    | some (.string type) =>
      let body := document.members.lookup (ascii "body")
      let error := document.members.lookup (ascii "error")
      validateFields ⟨type, body, none, error⟩ .invalidFormat
      .ok ⟨type, body, document.members.lookup (ascii "seq"), error, if body.isSome then document.rawBodySize else 0⟩
    | _ => .error (invalidEnvelope "the message envelope requires a non-empty string type")

def emplaceField (key : String) (value : Option JsonValue) (object : List (Bytes × JsonValue)) :
    List (Bytes × JsonValue) :=
  match value with
  | none => object
  | some value => (emplace (ascii key) value object).getD object

def envelope (fields : MessageFields) : List (Bytes × JsonValue) :=
  emplaceField "error" fields.error (emplaceField "seq" fields.sequence (emplaceField "body" fields.body
    (emplaceField "type" (some (.string fields.type)) [])))

def serializeMessage (charconv : Charconv) (fields : MessageFields) : Except Status Bytes := do
  validateFields fields .invalidArgument
  dump charconv (.object (envelope fields))

def prepareJsonValue (charconv : Charconv) (value : JsonValue) : Except Status PreparedJsonValue := do
  let dumped ← dumpValue charconv 3 value
  .ok ⟨dumped⟩

def prepareMessage (charconv : Charconv) (fields : MessageFields) : Except Status PreparedMessage := do
  let bytes ← serializeMessage charconv fields
  .ok ⟨bytes⟩

/-- The loop of `PrepareArrayMessage`; an item is null, moved away, or the bytes to append. -/
def appendItems : Bool → Bytes → List (Option PreparedJsonValue) → Except Status Bytes
  | _, text, [] => .ok text
  | _, _, none :: _ => .error (.failWithoutMessage .invalidArgument)
  | first, text, some item :: items =>
    if item.bytes.length = 0 then .error (.failWithoutMessage .invalidArgument)
    else appendItems false ((if first then text else text ++ [44]) ++ item.bytes) items

def prepareArrayMessage (charconv : Charconv) (type arrayKey : Bytes) (items : List (Option PreparedJsonValue)) :
    Except Status PreparedMessage :=
  if type = [] then .error (.failWithoutMessage .invalidArgument)
  else do
    let quotedType ← dump charconv (.string type)
    let quotedKey ← dump charconv (.string arrayKey)
    let text ← appendItems true (ascii "\x7b\"body\":\x7b" ++ quotedKey ++ ascii ":[") items
    .ok ⟨text ++ ascii "]\x7d,\"type\":" ++ quotedType ++ ascii "\x7d"⟩

end Json

end ServerCore.Protocol
