import SourceSwitch.Text.Digit
import SourceSwitch.Text.Number

namespace SourceSwitch

structure Version where
  major : Nat
  minor : Nat
  patch : Nat
deriving DecidableEq, Repr, Inhabited

structure MalformedVersion where
  text : Text
deriving DecidableEq, Repr

def MalformedVersion.message (e : MalformedVersion) : Text := "Malformed version: " ++ e.text

namespace Version

protected def compare (a b : Version) : Ordering :=
  (compare a.major b.major).then ((compare a.minor b.minor).then (compare a.patch b.patch))

instance : Ord Version := ⟨Version.compare⟩

/-- A run of decimal digits of any script, as long as possible, and what follows it. -/
def digits? (t : Text) : Option (Text × Text) :=
  if t.head?.any Text.isDecimal then some (t.takeWhile Text.isDecimal, t.dropWhile Text.isDecimal)
  else none

/-- The digit runs of major, minor and patch. A dot without a digit behind it ends the version, and
what follows, such as a pre-release tag, is ignored. -/
def components? (t : Text) : Option (Text × Text × Option Text) := do
  let (major, t) ← digits? t
  let t ← Text.after? "." t
  let (minor, t) ← digits? t
  some (major, minor, (Text.after? "." t).bind digits? |>.map (·.1))

/-- Components are ASCII numbers of at most 64 bits; a missing patch is 0. -/
def parse? (t : Text) : Option Version := do
  let (major, minor, patch) ← components? (Text.trim t)
  let major ← Text.readWord? major
  let minor ← Text.readWord? minor
  let patch ← match patch with
    | some run => Text.readWord? run
    | none => some 0
  some ⟨major, minor, patch⟩

def parse (t : Text) : Except MalformedVersion Version :=
  match parse? t with
  | some v => .ok v
  | none => .error ⟨t⟩

/-- Compares two texts by their numbers; the first is read first. -/
def compareTexts (a b : Text) : Except MalformedVersion Ordering := do
  let v ← parse a
  let w ← parse b
  return compare v w

end Version

end SourceSwitch
