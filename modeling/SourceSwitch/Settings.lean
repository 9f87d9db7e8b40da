import SourceSwitch.Json.Document
import SourceSwitch.Json.Record
import SourceSwitch.Registry.Host

namespace SourceSwitch

structure RegistrySettings where
  /-- The namespace that publishes the project's modules. -/
  owner : Text
  /-- A host in any spelling; empty for the public registry. -/
  host : Text
  /-- An organization's private registry; a blank one counts as none. -/
  organization : Option Text
deriving DecidableEq, Repr

namespace RegistrySettings

def empty : RegistrySettings := ⟨[], [], none⟩

def normalHost (s : RegistrySettings) : Text := Host.normalize s.host

def isPublicHost (s : RegistrySettings) : Bool := s.normalHost = Host.default

def privateOwner? (s : RegistrySettings) : Option Text :=
  (s.organization.map Text.trim).bind Text.nonempty?

def isPrivate (s : RegistrySettings) : Bool := s.privateOwner?.isSome

def publisher (s : RegistrySettings) : Text := s.privateOwner?.getD (Text.trim s.owner)

def publicApi : Text := "/v1/modules"

def privateApi : Text := "/api/registry/v1/modules"

def apiPath (s : RegistrySettings) : Text := if s.isPrivate then privateApi else publicApi

/-- How a published source of the publisher starts. At the public registry the host may be left
out. -/
def publishedPrefixes (s : RegistrySettings) : List Text :=
  let qualified := s.normalHost ++ "/" ++ s.publisher ++ "/"
  if s.isPublicHost then [s.publisher ++ "/", qualified] else [qualified]

def tokenVariable (s : RegistrySettings) : Text := Host.tokenVariable s.normalHost

end RegistrySettings

structure Settings where
  registry : RegistrySettings
  fileName : Text
  concurrency : Nat
deriving DecidableEq, Repr

inductive SettingsFault where
  | noOwner
  | noConcurrency
deriving DecidableEq, Repr

namespace Settings

def default : Settings := ⟨.empty, "main.tf", 8⟩

def documentName : Text := ".tf-bounce.json"

def fault? (s : Settings) : Option SettingsFault :=
  if Text.isBlankText s.registry.owner then some .noOwner
  else if s.concurrency = 0 then some .noConcurrency
  else none

def registry? (v : Json.Value) : Option RegistrySettings := do
  match ← Json.fields? ["namespace", "host", "organization"] v with
  | [owner, host, organization] =>
    return {
      owner := ← Json.field? Json.Value.text? [] owner
      host := ← Json.field? Json.Value.text? [] host
      organization := ← Json.field? optionalText? none organization }
  | _ => none
where
  optionalText? : Json.Value → Option (Option Text)
    | .null => some none
    | v => v.text?.map some

/-- Reads a settings document; absent fields have their defaults. -/
def decode? (content : Text) : Option Settings := do
  let document ← Json.read? (Text.encode content)
  match ← Json.fields? ["registry", "fileName", "concurrency"] document with
  | [registry, fileName, concurrency] =>
    return {
      registry := ← Json.field? registry? default.registry registry
      fileName := ← Json.field? Json.Value.text? default.fileName fileName
      concurrency := ← Json.field? Json.Value.word? default.concurrency concurrency }
  | _ => none

end Settings

end SourceSwitch
