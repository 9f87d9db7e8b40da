import SourceSwitch.Json.Value
import SourceSwitch.Text.Number

namespace SourceSwitch.Json

namespace Value

def text? : Value → Option Text
  | string text => text
  | _ => none

/-- A number without sign, fraction and exponent, of at most 64 bits. -/
def word? : Value → Option Nat
  | number spelling => Text.readWord? spelling
  | _ => none

def items? : Value → Option (List Value)
  | array items => some items
  | _ => none

/-- The members of an object whose names are all texts. -/
def members? : Value → Option (List (Text × Value))
  | object members => members.mapM fun (name, v) => name.map (·, v)
  | _ => none

end Value

/-- The value of a name that stands at most once. -/
def member? (members : List (Text × Value)) (name : Text) : Option (Option Value) :=
  match members.filter (·.1 = name) with
  | [] => some none
  | [(_, v)] => some (some v)
  | _ => none

/-- The values of a record's fields, in the order of their names. The record is an object, where
other names are passed over, or an array with the fields by position. -/
def fields? (names : List Text) (v : Value) : Option (List (Option Value)) :=
  match v with
  | .array items =>
    if items.length ≤ names.length then
      some (items.map some ++ List.replicate (names.length - items.length) none)
    else none
  | v => do
    let members ← v.members?
    names.mapM (member? members)

def field? {α : Type} (read : Value → Option α) (default : α) : Option Value → Option α
  | some v => read v
  | none => some default

end SourceSwitch.Json
