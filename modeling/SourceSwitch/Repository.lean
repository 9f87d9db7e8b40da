import SourceSwitch.Registry.Coordinates
import SourceSwitch.Settings

namespace SourceSwitch

structure Repository where
  provider : Text
  moduleName : Text
deriving DecidableEq, Repr

namespace Repository

def namePrefix : Text := "terraform-"

/-- Splits a repository's name; the provider ends at the first dash. -/
def ofName? (name : Text) : Option Repository := do
  let rest ← Text.after? namePrefix name
  let provider := rest.takeWhile (· ≠ '-')
  let moduleName ← Text.after? "-" (rest.dropWhile (· ≠ '-'))
  guard (provider ≠ [] ∧ moduleName ≠ [])
  some ⟨provider, moduleName⟩

def coordinates (r : Repository) (s : RegistrySettings) : Coordinates :=
  .atHost s.normalHost s.publisher r.moduleName r.provider

/-- The published base of the repository's module; it names the host unless that is public. -/
def expectedBase (r : Repository) (s : RegistrySettings) : Text :=
  if s.isPublicHost then (r.coordinates s).path else (r.coordinates s).text

end Repository

end SourceSwitch
