import SourceSwitch.Text.Basic

namespace SourceSwitch

namespace Attribute

def quote : Text := ['"']

/-- The content of a quoted text, and what follows it. -/
def quoted? (t : Text) : Option (Text × Text) := do
  let t ← Text.after? quote t
  let rest ← Text.after? quote (t.dropWhile (· ≠ '"'))
  some (t.takeWhile (· ≠ '"'), rest)

/-- What stands behind `key =`. -/
def assigned? (key t : Text) : Option Text := do
  let t ← Text.after? key (Text.trimStart t)
  let t ← Text.after? "=" (Text.trimStart t)
  some (Text.trimStart t)

def value? (key t : Text) : Option Text := do
  let t ← assigned? key t
  let (value, _) ← quoted? t
  some value

/-- What stands behind a line comment's opener. -/
def uncommented? (t : Text) : Option Text :=
  Text.after? "#" (Text.trimStart t) <|> Text.after? "//" (Text.trimStart t)

end Attribute

/-- A line that is read as more than body content. -/
inductive Attribute where
  | source (value : Text)
  | commentedSource (value : Text)
  | version (value : Text)
  | commentedVersion
deriving DecidableEq, Repr

namespace Attribute

def ofLine? (line : Text) : Option Attribute :=
  (value? "source" line).map source
    <|> ((uncommented? line).bind (value? "source")).map commentedSource
    <|> (value? "version" line).map version
    <|> ((uncommented? line).bind (assigned? "version")).map fun _ => commentedVersion

end Attribute

/-- The line `module "name" {` with nothing behind it. -/
structure Header where
  indent : Text
  name : Text
deriving DecidableEq, Repr

def Header.ofLine? (line : Text) : Option Header := do
  let t ← Text.after? "module" (Text.trimStart line)
  guard (t.head?.any Text.isBlank)
  let (name, t) ← Attribute.quoted? (Text.trimStart t)
  guard (name ≠ [])
  let t ← Text.after? r"{" (Text.trimStart t)
  guard (Text.isBlankText t)
  some ⟨line.takeWhile Text.isBlank, name⟩

end SourceSwitch
