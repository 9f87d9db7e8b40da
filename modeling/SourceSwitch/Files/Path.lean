import SourceSwitch.Text.Basic

namespace SourceSwitch

/-- A path is a Unicode text. Names of other bytes than UTF-8 are not represented, here and in
`Tree`: there are no such files. -/
structure Path where
  text : Text
deriving DecidableEq, Repr, Inhabited

namespace Path

/-- Components in ascending order of their kinds. -/
inductive Component where
  | root | current | parent
  | name (t : Text)
deriving DecidableEq, Repr

def Component.rank : Component → Nat
  | root => 0
  | current => 1
  | parent => 2
  | name _ => 3

instance : Ord Component where
  compare
    | .name s, .name t => compare s t
    | a, b => compare a.rank b.rank

def isAbsolute (p : Path) : Bool := p.text.head? = some '/'

/-- Segments between slashes as steps from one place to the next. A final slash asks for a folder,
as a final dot does. -/
def steps (p : Path) : List Component :=
  let segments := p.text.splitOn '/'
  let named := (segments.filter (· ≠ [])).map fun t =>
    if t = ['.'] then .current else if t = ['.', '.'] then .parent else .name t
  if p.text ≠ [] ∧ segments.getLast? = some [] then named ++ [.current] else named

/-- The components that count for comparing: a dot only where a relative path starts with it. -/
def components (p : Path) : List Component :=
  let named := p.steps.filter (· ≠ .current)
  if p.isAbsolute then .root :: named
  else if (p.text.splitOn '/').head? = some ['.'] then .current :: named
  else named

instance : Ord Path := ⟨fun p q => compare p.components q.components⟩

def le (p q : Path) : Bool := (compare p q).isLE

def join (p : Path) (name : Text) : Path :=
  if name.head? = some '/' then ⟨name⟩
  else if p.text = [] ∨ p.text.getLast? = some '/' then ⟨p.text ++ name⟩
  else ⟨p.text ++ ['/'] ++ name⟩

def fileName? (p : Path) : Option Text :=
  match p.components.getLast? with
  | some (.name t) => some t
  | _ => none

/-- Drops segments that name nothing from the end, but never the first. -/
def dropTrivial : List Text → List Text
  | [] => []
  | [first] => [first]
  | s :: t :: rest => if s = [] ∨ s = ['.'] then dropTrivial (t :: rest) else s :: t :: rest

/-- The path without its last component, and the empty path for a path of one component. -/
def parent? (p : Path) : Option Path :=
  match dropTrivial (p.text.splitOn '/').reverse with
  | [] | [[]] => none
  | [_] => some ⟨[]⟩
  | _ :: rest =>
    match dropTrivial rest with
    | [[]] => some ⟨['/']⟩
    | kept => some ⟨['/'].intercalate kept.reverse⟩

def ancestorsWithin : Nat → Path → List Path
  | 0, p => [p]
  | n + 1, p => p :: (p.parent?.map (ancestorsWithin n)).getD []

def ancestors (p : Path) : List Path := ancestorsWithin p.text.length p

def ofPlace (names : List Text) : Path := ⟨'/' :: ['/'].intercalate names⟩

end Path

end SourceSwitch
