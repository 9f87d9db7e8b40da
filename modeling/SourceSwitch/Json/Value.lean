import SourceSwitch.Text.Utf8

namespace SourceSwitch.Json

/-- A number keeps its spelling, an object its members in order. A text is missing where its bytes
spell none. -/
inductive Value where
  | null
  | bool (b : Bool)
  | number (spelling : Text)
  | string (text : Option Text)
  | array (items : List Value)
  | object (members : List (Option Text × Value))
deriving Repr, Inhabited

/-- A string's content as written: a byte, or an escaped UTF-16 unit. -/
inductive Piece where
  | byte (b : UInt8)
  | unit (n : Nat)
deriving DecidableEq, Repr

namespace Piece

def isLead (n : Nat) : Bool := 0xD800 ≤ n && n < 0xDC00

def isTrail (n : Nat) : Bool := 0xDC00 ≤ n && n < 0xE000

def utf8 (codePoint : Nat) : List UInt8 := (Text.encode [Char.ofNat codePoint]).toList

/-- The bytes that pieces spell. A surrogate counts only in a pair. -/
def bytes? : List Piece → Option (List UInt8)
  | [] => some []
  | .byte b :: rest => (bytes? rest).map (b :: ·)
  | .unit lead :: .unit trail :: rest =>
    if isLead lead then
      if isTrail trail then
        (bytes? rest).map (utf8 (0x10000 + (lead - 0xD800) * 0x400 + (trail - 0xDC00)) ++ ·)
      else none
    else if isTrail lead then none
    else (bytes? (.unit trail :: rest)).map (utf8 lead ++ ·)
  | .unit n :: rest => if isLead n || isTrail n then none else (bytes? rest).map (utf8 n ++ ·)

def text? (pieces : List Piece) : Option Text :=
  (bytes? pieces).bind fun bytes => Text.decode? ⟨bytes.toArray⟩

end Piece

end SourceSwitch.Json
