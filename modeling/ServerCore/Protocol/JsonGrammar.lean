import ServerCore.Protocol.Json

/-! The grammar of RFC 8259 over bytes: syntax trees, the texts that spell them, and the
value a tree stands for. -/

namespace ServerCore.Protocol.Json

open ServerCore.Core ServerCore.Foundations

def Digits (digits : Bytes) : Prop := digits ≠ [] ∧ ∀ b ∈ digits, isDigit b = true

lemma zero_digits : Digits [48] := by simp [Digits, isDigit]

lemma zero_alone (_ : ([48] : Bytes).head? = some 48) : ([48] : Bytes) = [48] := rfl

/-- `number = [ minus ] int [ frac ] [ exp ]`. -/
structure NumberToken where
  negative : Bool
  integer : Bytes
  fraction : Option Bytes
  exponent : Option (Byte × Option Byte × Bytes)
  integer_digits : Digits integer
  no_leading_zero : integer.head? = some 48 → integer = [48]
  fraction_digits : ∀ digits, fraction = some digits → Digits digits
  exponent_digits : ∀ mark sign digits, exponent = some (mark, sign, digits) →
    (mark = 101 ∨ mark = 69) ∧ (∀ b, sign = some b → b = 43 ∨ b = 45) ∧ Digits digits

def fractionText : Option Bytes → Bytes
  | none => []
  | some digits => 46 :: digits

def exponentText : Option (Byte × Option Byte × Bytes) → Bytes
  | none => []
  | some (mark, sign, digits) => mark :: sign.toList ++ digits

namespace NumberToken

def text (t : NumberToken) : Bytes :=
  (if t.negative then [45] else []) ++ t.integer ++ fractionText t.fraction ++ exponentText t.exponent

def isInteger (t : NumberToken) : Bool := t.fraction.isNone && t.exponent.isNone

end NumberToken

inductive StringItem
  | raw (b : Byte) (printable : 0x20 ≤ b) (quote : b ≠ 34) (backslash : b ≠ 92)
  | escape (letter b : Byte) (simple : simpleEscape letter = some b)
  | unicode (d₁ d₂ d₃ d₄ : Byte) (hex : ∀ d ∈ [d₁, d₂, d₃, d₄], isHexDigit d = true)

namespace StringItem

def text : StringItem → Bytes
  | raw b .. => [b]
  | escape letter .. => [92, letter]
  | unicode d₁ d₂ d₃ d₄ _ => [92, 117, d₁, d₂, d₃, d₄]

def hex4 (d₁ d₂ d₃ d₄ : Byte) : ℕ := ((hexDigit d₁ * 16 + hexDigit d₂) * 16 + hexDigit d₃) * 16 + hexDigit d₄

def codeUnit : StringItem → Option ℕ
  | unicode d₁ d₂ d₃ d₄ _ => some (hex4 d₁ d₂ d₃ d₄)
  | _ => none

end StringItem

def stringText (items : List StringItem) : Bytes := 34 :: items.flatMap StringItem.text ++ [34]

/-- Every `\u` high surrogate has its `\u` low surrogate behind it, and no low one stands alone. -/
def surrogatesPaired : List StringItem → Bool
  | [] => true
  | item :: rest =>
    match item.codeUnit with
    | none => surrogatesPaired rest
    | some unit =>
      if isHighSurrogate unit then
        match rest with
        | [] => false
        | next :: rest => next.codeUnit.any isLowSurrogate && surrogatesPaired rest
      else !isLowSurrogate unit && surrogatesPaired rest

def unescape : List StringItem → Bytes
  | [] => []
  | .raw b .. :: rest => b :: unescape rest
  | .escape _ b _ :: rest => b :: unescape rest
  | .unicode d₁ d₂ d₃ d₄ _ :: rest =>
    if isHighSurrogate (StringItem.hex4 d₁ d₂ d₃ d₄) then
      match rest with
      | [] => []
      | next :: rest =>
        appendUtf8 (combineSurrogates (StringItem.hex4 d₁ d₂ d₃ d₄) (next.codeUnit.getD 0)) ++
          unescape rest
    else appendUtf8 (StringItem.hex4 d₁ d₂ d₃ d₄) ++ unescape rest

/-- `value = false / null / true / object / array / number / string`. -/
inductive Tree
  | null
  | boolean (value : Bool)
  | number (token : NumberToken)
  | string (items : List StringItem)
  | array (elements : List Tree)
  | object (members : List (List StringItem × Tree))

namespace Tree

mutual

def nodes : Tree → List Tree
  | .array elements => .array elements :: elementNodes elements
  | .object members => .object members :: memberNodes members
  | leaf => [leaf]

def elementNodes : List Tree → List Tree
  | [] => []
  | t :: rest => nodes t ++ elementNodes rest

def memberNodes : List (List StringItem × Tree) → List Tree
  | [] => []
  | (_, t) :: rest => nodes t ++ memberNodes rest

end

mutual

def depth : Tree → ℕ
  | .array elements => elementDepth elements
  | .object members => memberDepth members
  | _ => 0

def elementDepth : List Tree → ℕ
  | [] => 0
  | t :: rest => max (depth t + 1) (elementDepth rest)

def memberDepth : List (List StringItem × Tree) → ℕ
  | [] => 0
  | (_, t) :: rest => max (depth t + 1) (memberDepth rest)

end

mutual

def value (charconv : Charconv) : Tree → JsonValue
  | .null => .null
  | .boolean b => .boolean b
  | .number token => ((numberValue charconv token.text).toOption).getD .null
  | .string items => .string (unescape items)
  | .array elements => .array (elementValues charconv elements)
  | .object members => .object ((OrderedMap.insertAll [] (memberValues charconv members)).getD [])

def elementValues (charconv : Charconv) : List Tree → List JsonValue
  | [] => []
  | t :: rest => value charconv t :: elementValues charconv rest

def memberValues (charconv : Charconv) : List (List StringItem × Tree) → List (Bytes × JsonValue)
  | [] => []
  | (key, t) :: rest => (unescape key, value charconv t) :: memberValues charconv rest

end

end Tree

def Whitespace (text : Bytes) : Prop := ∀ b ∈ text, isWhitespace b = true

inductive Item
  | value (t : Tree)
  | elements (ts : List Tree)
  | members (ms : List (List StringItem × Tree))

/-- The texts of RFC 8259. The inside of an array or object has no white space in front, and
whatever white space stands before the closing bracket. -/
inductive Spells : Item → Bytes → Prop
  | null : Spells (.value .null) (ascii "null")
  | boolean (b : Bool) : Spells (.value (.boolean b)) (if b then ascii "true" else ascii "false")
  | number (t : NumberToken) : Spells (.value (.number t)) t.text
  | string (items : List StringItem) : Spells (.value (.string items)) (stringText items)
  | emptyArray {w} : Whitespace w → Spells (.value (.array [])) (91 :: w ++ [93])
  | array {w ts x} : Whitespace w → Spells (.elements ts) x →
      Spells (.value (.array ts)) (91 :: w ++ x ++ [93])
  | emptyObject {w} : Whitespace w → Spells (.value (.object [])) (123 :: w ++ [125])
  | object {w ms x} : Whitespace w → Spells (.members ms) x →
      Spells (.value (.object ms)) (123 :: w ++ x ++ [125])
  | lastElement {t x w} : Spells (.value t) x → Whitespace w → Spells (.elements [t]) (x ++ w)
  | element {t x w w' ts y} : Spells (.value t) x → Whitespace w → Whitespace w' →
      Spells (.elements ts) y → Spells (.elements (t :: ts)) (x ++ w ++ 44 :: w' ++ y)
  | lastMember {key w w' t x w''} : Whitespace w → Whitespace w' → Spells (.value t) x → Whitespace w'' →
      Spells (.members [(key, t)]) (stringText key ++ w ++ 58 :: w' ++ x ++ w'')
  | member {key w w' t x w'' w''' ms y} : Whitespace w → Whitespace w' → Spells (.value t) x →
      Whitespace w'' → Whitespace w''' → Spells (.members ms) y →
      Spells (.members ((key, t) :: ms)) (stringText key ++ w ++ 58 :: w' ++ x ++ w'' ++ 44 :: w''' ++ y)

end ServerCore.Protocol.Json
