import SourceSwitch.Log.Event
import SourceSwitch.Registry.Coordinates
import SourceSwitch.Registry.Status
import SourceSwitch.Version.Basic

namespace SourceSwitch

/-- Why no response came, in the words of the library. -/
structure TransportFault where
  message : Text
deriving DecidableEq, Repr

inductive ResponseFault where
  | malformedVersion (cause : MalformedVersion)
  | unexpectedStatus (code : Nat)
  | undecodable (url : Text)
  | described (text : Text)
deriving DecidableEq, Repr

def ResponseFault.message : ResponseFault → Text
  | malformedVersion cause => cause.message
  | unexpectedStatus code => "Unexpected status: " ++ Status.text code
  | undecodable url => "error decoding response body for url (" ++ url ++ ")"
  | described text => text

inductive LookupError where
  | invalidSource (source : Text)
  | notFound (address : Text)
  | network (fault : TransportFault)
  | invalidResponse (fault : ResponseFault)
deriving DecidableEq, Repr

namespace LookupError

def message : LookupError → Text
  | invalidSource source => "Invalid module source: " ++ source
  | notFound address => "Module not found: " ++ address
  | network fault => "Network error: " ++ fault.message
  | invalidResponse fault => "Invalid response: " ++ fault.message

def isTransient : LookupError → Bool
  | network _ | invalidResponse _ => true
  | invalidSource _ | notFound _ => false

end LookupError

/-- The highest published version as it is spelt, and its major number. -/
structure Release where
  version : Text
  major : Nat
deriving DecidableEq, Repr

abbrev Answer := Except LookupError Release

/-- An answer with what was logged on the way to it. -/
structure Reply where
  answer : Answer
  events : List Log.Event

/-- A registry, with the state that it keeps between lookups. -/
abbrev Lookup (σ : Type) := Coordinates → σ → Reply × σ

/-- A registry whose answers never change. -/
def Lookup.fixed (answer : Coordinates → Answer) : Lookup Unit := fun c s => (⟨answer c, []⟩, s)

namespace Coordinates

/-- The coordinates of a published base, or the error that it has none. -/
def ofBase (defaultHost base : Text) : Except LookupError Coordinates :=
  match ofBase? defaultHost base with
  | some c => .ok c
  | none => .error (.invalidSource base)

end Coordinates

end SourceSwitch
