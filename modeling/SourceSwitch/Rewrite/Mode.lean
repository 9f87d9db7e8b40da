import SourceSwitch.Registry.Coordinates
import SourceSwitch.Repository
import SourceSwitch.Settings

namespace SourceSwitch

inductive Mode where
  /-- Points the project's own module at the tree. -/
  | toTree (expectedBase : Text)
  /-- Points the project's own module at its published form. -/
  | toRegistry (expectedBase : Text) (coordinates : Coordinates)
  /-- Renews the version of every module whose base starts in one of the given ways. -/
  | refresh (leads : List Text) (defaultHost : Text)
deriving DecidableEq, Repr

namespace Mode

def name : Mode → Text
  | toTree _ => "local"
  | toRegistry .. => "registry"
  | refresh .. => "registry-all"

def toTreeOf (r : Repository) (s : RegistrySettings) : Mode := toTree (r.expectedBase s)

def toRegistryOf (r : Repository) (s : RegistrySettings) : Mode :=
  toRegistry (r.expectedBase s) (r.coordinates s)

def refreshOf (s : RegistrySettings) : Mode := refresh s.publishedPrefixes s.normalHost

end Mode

end SourceSwitch
