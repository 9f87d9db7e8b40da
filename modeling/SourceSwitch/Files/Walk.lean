import SourceSwitch.Files.Tree

namespace SourceSwitch

namespace Tree

def isFile : Tree → Bool
  | file _ => true
  | link _ | folder _ => false

def isFolder : Tree → Bool
  | folder _ => true
  | file _ | link _ => false

end Tree

structure Visit where
  path : Path
  /-- How many folders below the start it lies. -/
  depth : Nat
  name : Text
  node : Tree

def Visit.entry (v : Visit) (name : Text) (t : Tree) : Visit :=
  ⟨v.path.join name, v.depth + 1, name, t⟩

namespace Tree

mutual

/-- The visits of a walk over a tree, outer ones first. It follows no link, and visits nothing below
a folder that it skips. -/
def visits (skips : Visit → Bool) (path : Path) (depth : Nat) (name : Text) (t : Tree) :
    List Visit :=
  if skips ⟨path, depth, name, t⟩ then []
  else ⟨path, depth, name, t⟩ :: match t with
    | folder entries => visitsIn skips path depth entries
    | file _ | link _ => []

def visitsIn (skips : Visit → Bool) (path : Path) (depth : Nat) :
    List (Text × Tree) → List Visit
  | [] => []
  | (name, t) :: rest =>
    visits skips (path.join name) (depth + 1) name t ++ visitsIn skips path depth rest

end

end Tree

def Visit.walk (skips : Visit → Bool) (start : Visit) : List Visit :=
  start.node.visits skips start.path start.depth start.name

end SourceSwitch
