import SourceSwitch.Json.Document
import SourceSwitch.Json.Record
import SourceSwitch.Log.Event
import SourceSwitch.Registry.Host

namespace SourceSwitch

inductive TokenSource where
  | environment (valueOf : Text → Option Text)
  /-- A credentials file; without content if there is no such file. -/
  | file (path : Text) (content : Option Text)

def CredentialsFile.tokens? (content : Text) : Option (List (Text × Text)) := do
  let fields ← Json.fields? ["credentials"] (← Json.read? (Text.encode content))
  Json.field? tokensByHost? [] (fields.head?.bind id)
where
  token? (v : Json.Value) : Option Text := do
    let fields ← Json.fields? ["token"] v
    (← fields.head?.bind id).text?
  tokensByHost? (v : Json.Value) : Option (List (Text × Text)) := do
    (← v.members?).mapM fun (host, entry) => (token? entry).map (host, ·)

namespace TokenSource

def fromEnvironment (valueOf : Text → Option Text) (host : Text) : Option Text × List Log.Event :=
  let name := Host.tokenVariable host
  match (valueOf name).filter (¬ Text.isBlankText ·) with
  | some token => (some token, [.debug .credentials ("Using token from " ++ name)])
  | none => (none, [])

/-- The token of the host's last entry. -/
def fromFile (path : Text) (content : Option Text) (host : Text) : Option Text × List Log.Event :=
  match content with
  | none => (none, [])
  | some content =>
    match CredentialsFile.tokens? content with
    | some tokens => (tokens.reverse.lookup host, [])
    | none =>
      (none, [.warn .credentials ("Failed to parse " ++ path ++ ": not a credentials document")])

def token (host : Text) : TokenSource → Option Text × List Log.Event
  | environment valueOf => fromEnvironment valueOf host
  | file path content => fromFile path content host

def firstToken (host : Text) : List TokenSource → Option Text × List Log.Event
  | [] => (none, [])
  | source :: rest =>
    match source.token host with
    | (some token, events) => (some token, events)
    | (none, events) =>
      let (token, more) := firstToken host rest
      (token, events ++ more)

end TokenSource

end SourceSwitch
