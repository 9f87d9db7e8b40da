import SourceSwitch.Text.Basic

namespace SourceSwitch

/-- A declaration `module "name" { … }`. -/
structure ModuleBlock where
  name : Text
  /-- The header's line, counted from 1. -/
  startLine : Nat
  /-- The closing bracket's line, counted from 1. -/
  endLine : Nat
  indent : Text
  header : Text
  source : Option Text
  /-- A source written in a comment. It never says what the module is. -/
  commentedSource : Option Text
  version : Option Text
  /-- All other lines between header and closing bracket. -/
  body : List Text
  /-- What stands behind the closing bracket. -/
  trailer : Option Text
deriving DecidableEq, Repr

namespace ModuleBlock

def firstIndex (b : ModuleBlock) : Nat := b.startLine - 1

def height (b : ModuleBlock) : Nat := b.endLine - b.firstIndex

def keep (line : Text) (b : ModuleBlock) : ModuleBlock := { b with body := b.body ++ [line] }

end ModuleBlock

end SourceSwitch
