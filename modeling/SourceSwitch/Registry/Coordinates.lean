import SourceSwitch.Registry.Host

namespace SourceSwitch

structure Coordinates where
  host : Text
  owner : Text
  name : Text
  provider : Text
deriving DecidableEq, Repr

namespace Coordinates

def atHost (host owner name provider : Text) : Coordinates :=
  ⟨Host.normalize host, owner, name, provider⟩

/-- `owner/name/provider`. -/
def path (c : Coordinates) : Text := c.owner ++ "/" ++ c.name ++ "/" ++ c.provider

/-- `host/owner/name/provider`. -/
def text (c : Coordinates) : Text := c.host ++ "/" ++ c.path

/-- Reads a published base. Three segments lie at the default host, four name their own. -/
def ofBase? (defaultHost base : Text) : Option Coordinates :=
  let segments := (Text.strip '/' base).splitOn '/'
  if segments.any List.isEmpty then none
  else match segments with
    | [owner, name, provider] => some (atHost defaultHost owner name provider)
    | [host, owner, name, provider] => some (atHost host owner name provider)
    | _ => none

end Coordinates

end SourceSwitch
