import SourceSwitch.Block.Basic
import SourceSwitch.Bracket.Tally

namespace SourceSwitch

open SourceSwitch.Bracket (Carry)

namespace Layout

def unit : Text := [' ', ' ']

def indentation (depth : Nat) : Text := (List.replicate depth unit).flatten

/-- A depth after a line; it does not fall below zero. -/
def shift (depth : Nat) (net : Int) : Nat := (depth + net).toNat

/-- Body lines from a given depth on. Lines kept as they are still move the depth. -/
def reindentFrom (base : Text) (carry : Carry) (depth : Nat) : List Text → List Text
  | [] => []
  | line :: rest =>
    let (tally, next) := carry.scan line
    if tally.verbatim then
      line :: reindentFrom base next (shift depth tally.net) rest
    else if Text.isBlankText line then
      [] :: reindentFrom base next depth rest
    else
      let own := if tally.leadingClose then depth - 1 else depth
      let net := if tally.leadingClose then tally.net + 1 else tally.net
      (base ++ indentation own ++ Text.trim line) :: reindentFrom base next (shift own net) rest

/-- A body without its leading blank lines, indented at `base`. -/
def reindent (base : Text) (body : List Text) : List Text :=
  reindentFrom base .code 0 (body.dropWhile Text.isBlankText)

def assignment (key value : Text) : Text := key ++ " = \"" ++ value ++ "\""

end Layout

namespace ModuleBlock

open Layout

def footer (b : ModuleBlock) : Text :=
  match b.trailer with
  | some trailer => b.indent ++ r"} " ++ trailer
  | none => b.indent ++ r"}"

def paragraph (base : Text) (body : List Text) : List Text :=
  match reindent base body with
  | [] => []
  | lines => [] :: lines

/-- The declaration's lines around a new source and version constraint. -/
def render (source : Text) (version : Option Text) (b : ModuleBlock) : List Text :=
  let inner := b.indent ++ unit
  [b.header, inner ++ assignment "source " source]
    ++ (version.map fun v => inner ++ assignment "version" v).toList
    ++ paragraph inner b.body ++ [b.footer]

end ModuleBlock

end SourceSwitch
