import ServerCore.Core.Status
import ServerCore.Core.Utf8
import ServerCore.Foundations.OrderedMap
import ServerCore.Protocol.JsonNumber

/-! JSON values, their parser and their text as `Json.cpp` has them. The parser works
on the unread suffix of the text; a failure keeps the suffix at which it was thrown. -/

namespace ServerCore.Protocol

open ServerCore.Core ServerCore.Foundations

/-- `JsonValue`; a double is its 64 bits, an object the members of its map in key order. -/
inductive JsonValue
  | null
  | boolean (value : Bool)
  | int64 (value : Int64)
  | uint64 (value : UInt64)
  | number (bits : UInt64)
  | string (value : Bytes)
  | array (elements : List JsonValue)
  | object (members : List (Bytes × JsonValue))
  deriving Repr

def maximumJsonNestingDepth : ℕ := 256

def emplace (key : Bytes) (value : JsonValue) (object : List (Bytes × JsonValue)) :
    Option (List (Bytes × JsonValue)) := OrderedMap.insert key value object

inductive ParseFailure
  | format (message : String) (rest : Bytes)
  | valueLimit
  | outOfFuel

structure TopLevelMembers where
  hasBody : Bool
  rawBodySize : ℕ
  deriving DecidableEq, Repr

/-- The unread text and `mRemainingValues`. -/
structure Cursor where
  rest : Bytes
  remainingValues : ℕ

namespace Json

def isWhitespace (b : Byte) : Bool := b = 32 || b = 9 || b = 13 || b = 10

def skipWhitespace (rest : Bytes) : Bytes := rest.dropWhile isWhitespace

def skipByteOrderMark (text : Bytes) : Bytes := if startsWith text [0xEF, 0xBB, 0xBF] then text.drop 3 else text

def consume (b : Byte) : Bytes → Option Bytes
  | [] => none
  | b' :: rest => if b' = b then some rest else none

def parseLiteral (literal rest : Bytes) : Except ParseFailure Bytes :=
  if rest.take literal.length ≠ literal then .error (.format "invalid literal" rest)
  else .ok (rest.drop literal.length)

def hexDigits : ℕ → ℕ → Bytes → Except ParseFailure (ℕ × Bytes)
  | 0, value, rest => .ok (value, rest)
  | _ + 1, _, [] => .error (.format "incomplete unicode escape" [])
  | count + 1, value, b :: rest =>
    if isHexDigit b then hexDigits count (value * 16 + hexDigit b) rest
    else .error (.format "invalid unicode escape" rest)

def parseHex4 (rest : Bytes) : Except ParseFailure (ℕ × Bytes) :=
  if rest.length < 4 then .error (.format "incomplete unicode escape" rest) else hexDigits 4 0 rest

def isHighSurrogate (n : ℕ) : Bool := 0xD800 ≤ n && n ≤ 0xDBFF

def isLowSurrogate (n : ℕ) : Bool := 0xDC00 ≤ n && n ≤ 0xDFFF

def combineSurrogates (high low : ℕ) : ℕ := 0x10000 + (high - 0xD800) * 1024 + (low - 0xDC00)

/-- The bytes behind `\u`: the text of the code point and what follows it. -/
def parseUnicodeEscape (rest : Bytes) : Except ParseFailure (Bytes × Bytes) := do
  let (codePoint, rest) ← parseHex4 rest
  if isHighSurrogate codePoint then
    if rest.take 2 ≠ [92, 117] then .error (.format "missing low surrogate" rest)
    else
      let (low, rest) ← parseHex4 (rest.drop 2)
      if !isLowSurrogate low then .error (.format "invalid low surrogate" rest)
      else .ok (appendUtf8 (combineSurrogates codePoint low), rest)
  else if isLowSurrogate codePoint then .error (.format "unexpected low surrogate" rest)
  else .ok (appendUtf8 codePoint, rest)

def simpleEscape (b : Byte) : Option Byte :=
  if b = 34 then some 34
  else if b = 92 then some 92
  else if b = 47 then some 47
  else if b = 98 then some 8
  else if b = 102 then some 12
  else if b = 110 then some 10
  else if b = 114 then some 13
  else if b = 116 then some 9
  else none

lemma hexDigits_length {count value n : ℕ} {rest rest' : Bytes}
    (h : hexDigits count value rest = .ok (n, rest')) : rest'.length + count = rest.length := by
  induction count generalizing value rest with
  | zero =>
    simp only [hexDigits, Except.ok.injEq, Prod.mk.injEq] at h
    rw [h.2, Nat.add_zero]
  | succ count ih =>
    cases rest with
    | nil => simp [hexDigits] at h
    | cons b rest =>
      simp only [hexDigits] at h
      split_ifs at h
      have := ih h
      simp only [List.length_cons]
      omega

lemma parseHex4_length {n : ℕ} {rest rest' : Bytes} (h : parseHex4 rest = .ok (n, rest')) :
    rest'.length + 4 = rest.length := by
  simp only [parseHex4] at h
  split_ifs at h
  exact hexDigits_length h

lemma bind_eq_ok {ε α β : Type} {x : Except ε α} {f : α → Except ε β} {b : β}
    (h : (x >>= f) = .ok b) : ∃ a, x = .ok a ∧ f a = .ok b := by
  cases x with
  | error e => cases h
  | ok a => exact ⟨a, rfl, h⟩

lemma parseUnicodeEscape_length {text rest rest' : Bytes}
    (h : parseUnicodeEscape rest = .ok (text, rest')) : rest'.length < rest.length := by
  obtain ⟨⟨n, rest₁⟩, h₁, h⟩ := bind_eq_ok h
  have hl := parseHex4_length h₁
  simp only at h
  split_ifs at h
  · obtain ⟨⟨low, rest₂⟩, h₂, h⟩ := bind_eq_ok h
    have hl' := parseHex4_length h₂
    simp only [List.length_drop] at hl'
    simp only at h
    split_ifs at h
    obtain ⟨-, rfl⟩ := Prod.mk.inj (Except.ok.inj h)
    omega
  · obtain ⟨-, rfl⟩ := Prod.mk.inj (Except.ok.inj h)
    omega

def stringLoop (result rest : Bytes) : Except ParseFailure (Bytes × Bytes) :=
  match rest with
  | [] => .error (.format "unterminated string" [])
  | character :: rest =>
    if character = 34 then .ok (result, rest)
    else if character < 0x20 then .error (.format "unescaped control character" rest)
    else if character ≠ 92 then stringLoop (result ++ [character]) rest
    else
      match rest with
      | [] => .error (.format "incomplete escape sequence" [])
      | escape :: rest =>
        match simpleEscape escape with
        | some b => stringLoop (result ++ [b]) rest
        | none =>
          if escape = 117 then
            match _h : parseUnicodeEscape rest with
            | .error failure => .error failure
            | .ok (text, rest) => stringLoop (result ++ text) rest
          else .error (.format "invalid escape sequence" rest)
termination_by rest.length
decreasing_by
  · simp
  · simp only [List.length_cons]
    omega
  · have := parseUnicodeEscape_length _h
    simp only [List.length_cons]
    omega

def parseString (rest : Bytes) : Except ParseFailure (Bytes × Bytes) :=
  match consume 34 rest with
  | none => .error (.format "expected a string" rest)
  | some rest => stringLoop [] rest

def startsWithDigit (rest : Bytes) : Bool := rest.head?.any isDigit

def scanInteger (rest : Bytes) : Except ParseFailure Bytes :=
  match consume 48 rest with
  | some rest => if startsWithDigit rest then .error (.format "leading zero in number" rest) else .ok rest
  | none =>
    if !startsWithDigit rest then .error (.format "invalid number" rest)
    else .ok (rest.dropWhile isDigit)

def scanFraction (rest : Bytes) : Except ParseFailure Bytes :=
  match consume 46 rest with
  | some rest =>
    if !startsWithDigit rest then .error (.format "invalid fraction" rest) else .ok (rest.dropWhile isDigit)
  | none => .ok rest

def scanExponent (rest : Bytes) : Except ParseFailure Bytes :=
  match rest with
  | mark :: rest =>
    if mark = 101 || mark = 69 then
      let rest := if rest.head? = some 43 || rest.head? = some 45 then rest.drop 1 else rest
      if !startsWithDigit rest then .error (.format "invalid exponent" rest)
      else .ok (rest.dropWhile isDigit)
    else .ok (mark :: rest)
  | [] => .ok []

def scanNumber (rest : Bytes) : Except ParseFailure Bytes := do
  let rest ← scanInteger ((consume 45 rest).getD rest)
  let rest ← scanFraction rest
  scanExponent rest

def convertedValue (text : Bytes) : Option UInt64 → Except String JsonValue
  | none =>
    if magnitudeBelowOne text then
      .ok (.number (signedBits (text.head? = some 45) 0))
    else .error "number is out of range"
  | some result => if !isFinite result then .error "number is out of range" else .ok (.number result)

def doubleValue (charconv : Charconv) (text : Bytes) : Except String JsonValue :=
  convertedValue text (fromCharsDouble charconv text)

def numberValue (charconv : Charconv) (text : Bytes) : Except String JsonValue :=
  let hasFractionOrExponent := text.any fun b => b = 46 || b = 101 || b = 69
  if hasFractionOrExponent then doubleValue charconv text
  else if text.head? = some 45 then
    if text ≠ [45, 48] then
      match fromCharsNegative text with
      | some integer => .ok (.int64 integer)
      | none => .error "integer is out of range"
    else doubleValue charconv text
  else
    match fromCharsUInt64 text with
    | some integer => .ok (.uint64 integer)
    | none => .error "integer is out of range"

def parseNumber (charconv : Charconv) (rest : Bytes) : Except ParseFailure (JsonValue × Bytes) := do
  let rest' ← scanNumber rest
  match numberValue charconv (rest.take (rest.length - rest'.length)) with
  | .ok value => .ok (value, rest')
  | .error message => .error (.format message rest')

mutual

/-- `ParseValue`. Every recursive call has less fuel, and `parseDocument` starts with enough of it. -/
def parseValue (charconv : Charconv) : ℕ → ℕ → Cursor → Except ParseFailure (JsonValue × Cursor)
  | 0, _, _ => .error .outOfFuel
  | fuel + 1, depth, c =>
    if depth > maximumJsonNestingDepth then .error (.format "maximum nesting depth exceeded" c.rest)
    else
      match c.rest with
      | [] => .error (.format "expected a value" [])
      | b :: _ =>
        if c.remainingValues = 0 then .error .valueLimit
        else
          let remainingValues := c.remainingValues - 1
          if b = 110 then do
            let rest ← parseLiteral (ascii "null") c.rest
            .ok (.null, ⟨rest, remainingValues⟩)
          else if b = 116 then do
            let rest ← parseLiteral (ascii "true") c.rest
            .ok (.boolean true, ⟨rest, remainingValues⟩)
          else if b = 102 then do
            let rest ← parseLiteral (ascii "false") c.rest
            .ok (.boolean false, ⟨rest, remainingValues⟩)
          else if b = 34 then do
            let (text, rest) ← parseString c.rest
            .ok (.string text, ⟨rest, remainingValues⟩)
          else if b = 91 then do
            let (elements, c) ← parseArray charconv fuel (depth + 1) ⟨c.rest, remainingValues⟩
            .ok (.array elements, c)
          else if b = 123 then do
            let (members, _, c) ← parseObjectMembers charconv fuel (depth + 1) none ⟨c.rest, remainingValues⟩
            .ok (.object members, c)
          else if b = 45 || isDigit b then do
            let (value, rest) ← parseNumber charconv c.rest
            .ok (value, ⟨rest, remainingValues⟩)
          else .error (.format "invalid value" c.rest)

def parseArray (charconv : Charconv) : ℕ → ℕ → Cursor → Except ParseFailure (List JsonValue × Cursor)
  | 0, _, _ => .error .outOfFuel
  | fuel + 1, depth, c =>
    let rest := skipWhitespace ((consume 91 c.rest).getD c.rest)
    match consume 93 rest with
    | some rest => .ok ([], ⟨rest, c.remainingValues⟩)
    | none => elementLoop charconv fuel depth [] ⟨rest, c.remainingValues⟩

def elementLoop (charconv : Charconv) :
    ℕ → ℕ → List JsonValue → Cursor → Except ParseFailure (List JsonValue × Cursor)
  | 0, _, _, _ => .error .outOfFuel
  | fuel + 1, depth, result, c => do
    let (value, c) ← parseValue charconv fuel depth c
    let rest := skipWhitespace c.rest
    match consume 93 rest with
    | some rest => .ok (result ++ [value], ⟨rest, c.remainingValues⟩)
    | none =>
      match consume 44 rest with
      | none => .error (.format "expected ',' or ']'" rest)
      | some rest =>
        elementLoop charconv fuel depth (result ++ [value]) ⟨skipWhitespace rest, c.remainingValues⟩

/-- `ParseObjectMembers`; `topLevelMembers` is null below the top level. -/
def parseObjectMembers (charconv : Charconv) : ℕ → ℕ → Option TopLevelMembers → Cursor →
    Except ParseFailure (List (Bytes × JsonValue) × Option TopLevelMembers × Cursor)
  | 0, _, _, _ => .error .outOfFuel
  | fuel + 1, depth, topLevelMembers, c =>
    let rest := skipWhitespace ((consume 123 c.rest).getD c.rest)
    match consume 125 rest with
    | some rest => .ok ([], topLevelMembers, ⟨rest, c.remainingValues⟩)
    | none => memberLoop charconv fuel depth topLevelMembers [] ⟨rest, c.remainingValues⟩

def memberLoop (charconv : Charconv) : ℕ → ℕ → Option TopLevelMembers → List (Bytes × JsonValue) → Cursor →
    Except ParseFailure (List (Bytes × JsonValue) × Option TopLevelMembers × Cursor)
  | 0, _, _, _, _ => .error .outOfFuel
  | fuel + 1, depth, topLevelMembers, result, c =>
    if c.rest.head? ≠ some 34 then .error (.format "expected an object key" c.rest)
    else do
      let (key, rest) ← parseString c.rest
      let rest := skipWhitespace rest
      match consume 58 rest with
      | none => .error (.format "expected ':'" rest)
      | some rest =>
        let valueStart := skipWhitespace rest
        let (value, c) ← parseValue charconv fuel depth ⟨valueStart, c.remainingValues⟩
        let topLevelMembers := topLevelMembers.map fun members =>
          if key = ascii "body" then ⟨true, valueStart.length - c.rest.length⟩ else members
        match emplace key value result with
        | none => .error (.format "duplicate object key" c.rest)
        | some result =>
          let rest := skipWhitespace c.rest
          match consume 125 rest with
          | some rest => .ok (result, topLevelMembers, ⟨rest, c.remainingValues⟩)
          | none =>
            match consume 44 rest with
            | none => .error (.format "expected ',' or '\x7d'" rest)
            | some rest =>
              memberLoop charconv fuel depth topLevelMembers result ⟨skipWhitespace rest, c.remainingValues⟩

end

/-- `ParseDocument`: three units of fuel a byte are more than any text takes. -/
def parseDocument (charconv : Charconv) (text : Bytes) (maxValues : ℕ) : Except ParseFailure JsonValue := do
  let rest := skipWhitespace (skipByteOrderMark text)
  let (value, c) ← parseValue charconv (3 * text.length + 1) 0 ⟨rest, maxValues⟩
  let rest := skipWhitespace c.rest
  if rest.length ≠ 0 then .error (.format "unexpected trailing data" rest) else .ok value

def lineAndColumn (consumed : Bytes) : ℕ × ℕ :=
  consumed.foldl (fun position b => if b = 10 then (position.1 + 1, 1) else (position.1, position.2 + 1)) (1, 1)

def failureMessage (text : Bytes) (message : String) (rest : Bytes) : String :=
  let (line, column) := lineAndColumn (text.take (text.length - rest.length))
  message ++ " at line " ++ toString line ++ ", column " ++ toString column

/-- `ParseText` with the document parser: validation and the conversion of exceptions. -/
def parseText (charconv : Charconv) (text : Bytes) (maxValues : ℕ) : Except Status JsonValue :=
  if !isValidUtf8 text then .error (.fail .invalidFormat "JSON text is not valid UTF-8")
  else
    match parseDocument charconv text maxValues with
    | .ok value => .ok value
    | .error (.format message rest) => .error (.fail .invalidFormat (failureMessage text message rest))
    | .error .valueLimit => .error (.failWithoutMessage .tooLarge)
    | .error .outOfFuel => .error (.failWithoutMessage .platformError)

def noValueLimit : ℕ := sizeModulus - 1

def parse (charconv : Charconv) (text : Bytes) : Except Status JsonValue := parseText charconv text noValueLimit

def escapeByte (raw : Byte) : Bytes :=
  if raw = 34 then [92, 34]
  else if raw = 92 then [92, 92]
  else if raw = 8 then [92, 98]
  else if raw = 12 then [92, 102]
  else if raw = 10 then [92, 110]
  else if raw = 13 then [92, 114]
  else if raw = 9 then [92, 116]
  else if raw < 0x20 then
    [92, 117, 48, 48, digitChar (raw.toNat >>> 4), digitChar (raw.toNat &&& 0x0F)]
  else [raw]

def dumpEscapedString (value : Bytes) : Bytes := 34 :: value.flatMap escapeByte ++ [34]

def dumpNumber (charconv : Charconv) (bits : UInt64) : Except Status Bytes :=
  if !isFinite bits then .error (.fail .invalidArgument "a JSON number must be finite")
  else
    match charconv.toChars bits with
    | some formatted =>
      if formatted.any fun b => b = 46 || b = 101 || b = 69 then .ok formatted
      else .ok (formatted ++ ascii ".0")
    | none => .error (.fail .platformError "a finite JSON number could not be formatted")

def joinTexts : List (Except Status Bytes) → Except Status Bytes
  | [] => .ok []
  | [text] => text
  | text :: texts => do
    let head ← text
    let tail ← joinTexts texts
    .ok (head ++ ascii ", " ++ tail)

def memberText (member : Bytes × Except Status Bytes) : Except Status Bytes := do
  let value ← member.2
  .ok (dumpEscapedString member.1 ++ ascii ": " ++ value)

def atDepth (depth : ℕ) (text : Except Status Bytes) : Except Status Bytes :=
  if depth > maximumJsonNestingDepth then
    .error (.fail .invalidArgument "maximum JSON nesting depth exceeded")
  else text

def dumpString (value : Bytes) : Except Status Bytes :=
  if !isValidUtf8 value then .error (.fail .invalidArgument "a JSON string must be valid UTF-8")
  else .ok (dumpEscapedString value)

def dumpArray (texts : List (Except Status Bytes)) : Except Status Bytes := do
  let body ← joinTexts texts
  .ok (91 :: body ++ [93])

def dumpObject (members : List (Bytes × Except Status Bytes)) : Except Status Bytes :=
  if members.any fun member => !isValidUtf8 member.1 then
    .error (.fail .invalidArgument "a JSON object key must be valid UTF-8")
  else do
    let body ← joinTexts ((members.mergeSort fun l r => l.1 ≤ r.1).map memberText)
    .ok (123 :: body ++ [125])

mutual

def dumpValue (charconv : Charconv) : ℕ → JsonValue → Except Status Bytes
  | depth, .null => atDepth depth (.ok (ascii "null"))
  | depth, .boolean value => atDepth depth (.ok (if value then ascii "true" else ascii "false"))
  | depth, .int64 value => atDepth depth (.ok (toCharsInteger value.toInt))
  | depth, .uint64 value => atDepth depth (.ok (toCharsInteger value.toNat))
  | depth, .number bits => atDepth depth (dumpNumber charconv bits)
  | depth, .string value => atDepth depth (dumpString value)
  | depth, .array elements => atDepth depth (dumpArray (dumpElements charconv (depth + 1) elements))
  | depth, .object members => atDepth depth (dumpObject (dumpMembers charconv (depth + 1) members))

def dumpElements (charconv : Charconv) : ℕ → List JsonValue → List (Except Status Bytes)
  | _, [] => []
  | depth, value :: rest => dumpValue charconv depth value :: dumpElements charconv depth rest

def dumpMembers (charconv : Charconv) :
    ℕ → List (Bytes × JsonValue) → List (Bytes × Except Status Bytes)
  | _, [] => []
  | depth, (key, value) :: rest =>
    (key, dumpValue charconv depth value) :: dumpMembers charconv depth rest

end

def dump (charconv : Charconv) (value : JsonValue) : Except Status Bytes := dumpValue charconv 0 value

end Json

end ServerCore.Protocol
