import SourceSwitch.Version.Basic

namespace SourceSwitch

structure Constraint where
  major : Nat
  minor : Nat
deriving DecidableEq, Repr

namespace Constraint

def text (c : Constraint) : Text := "~> " ++ Text.ofNat c.major ++ "." ++ Text.ofNat c.minor

/-- Releases before 1.0 pin the minor number, all others the major one. -/
def pin (version : Text) (major : Nat) : Except MalformedVersion Constraint :=
  if major = 0 then (Version.parse version).map fun v => ⟨0, v.minor⟩ else .ok ⟨major, 0⟩

end Constraint

end SourceSwitch
