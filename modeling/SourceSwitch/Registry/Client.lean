import SourceSwitch.Registry.Credentials
import SourceSwitch.Registry.Lookup
import SourceSwitch.Version.Latest

namespace SourceSwitch

/-- What is asked of the library that sends requests. -/
structure Order where
  url : Text
  accept : Text
  userAgent : Text
  bearer : Option Text
deriving DecidableEq, Repr

structure Request where
  url : Text
  authorization : List Text
deriving DecidableEq, Repr

structure Response where
  /-- The address that answered. -/
  url : Text
  status : Nat
  body : ByteArray

/-- A library that builds requests and sends them, with the state that it keeps in between. -/
structure Http (σ : Type) where
  build : Order → Except TransportFault Request
  send : Request → σ → Except TransportFault Response × σ

namespace Catalog

def versions? (body : ByteArray) : Option (List Text) := do
  let fields ← Json.fields? ["modules"] (← Json.read? body)
  let modules ← (← fields.head?.bind id).items?
  (modules.mapM moduleVersions?).map List.flatten
where
  version? (v : Json.Value) : Option Text := do
    let fields ← Json.fields? ["version"] v
    (← fields.head?.bind id).text?
  versionList? (v : Json.Value) : Option (List Text) := do (← v.items?).mapM version?
  moduleVersions? (v : Json.Value) : Option (List Text) := do
    let fields ← Json.fields? ["versions"] v
    Json.field? versionList? [] (fields.head?.bind id)

end Catalog

/-- The answer that a list of version texts gives for an address. -/
def Release.latestOf (address : Text) (versions : List Text) : Answer :=
  match Version.latest? versions with
  | .error e => .error (.invalidResponse (.malformedVersion e))
  | .ok none => .error (.notFound address)
  | .ok (some (raw, v)) => .ok ⟨raw, v.major⟩

structure Client where
  apiPath : Text
  /-- Takes the place of `https://host` in every request. -/
  endpoint : Option Text
  credentials : List TokenSource

namespace Client

def userAgent : Text := "tf-bounce/0.1.0"

def ofPath (apiPath : Text) (credentials : List TokenSource) : Client :=
  ⟨Text.stripEnd '/' apiPath, none, credentials⟩

def withEndpoint (endpoint : Text) (client : Client) : Client :=
  { client with endpoint := some (Text.stripEnd '/' endpoint) }

def url (client : Client) (c : Coordinates) : Text :=
  client.endpoint.getD ("https://" ++ c.host) ++ client.apiPath ++ "/" ++ c.path ++ "/versions"

/-- The token for a host, unless it is the public registry. -/
def token (client : Client) (host : Text) : Option Text × List Log.Event :=
  if host = Host.default then (none, [])
  else match TokenSource.firstToken host client.credentials with
    | (some token, events) => (some token, events)
    | (none, events) => (none, events ++ [.debug .client ("No token available for " ++ host)])

def order (client : Client) (c : Coordinates) : Order × List Log.Event :=
  let url := client.url c
  let (token, events) := client.token c.host
  (⟨url, "application/json", userAgent, token⟩,
    .debug .client ("Fetching versions from " ++ url) :: events)

def judge (c : Coordinates) (url : Text) (r : Response) : Reply :=
  if r.status = Status.notFound then ⟨.error (.notFound c.text), []⟩
  else if ¬ Status.isSuccess r.status then
    ⟨.error (.invalidResponse (.unexpectedStatus r.status)),
      [.warn .client ("Registry returned status " ++ Status.text r.status ++ ": " ++ url)]⟩
  else match Catalog.versions? r.body with
    | some versions => ⟨Release.latestOf c.text versions, []⟩
    | none =>
      let fault := ResponseFault.undecodable r.url
      ⟨.error (.invalidResponse fault),
        [.warn .client ("Failed to parse registry response from " ++ url ++ ": " ++ fault.message)]⟩

def lookup {σ : Type} (client : Client) (http : Http σ) : Lookup σ := fun c s =>
  let (order, events) := client.order c
  match http.build order with
  | .error fault => (⟨.error (.network fault), events⟩, s)
  | .ok request =>
    match http.send request s with
    | (.error fault, s) => (⟨.error (.network fault), events⟩, s)
    | (.ok response, s) =>
      let reply := judge c order.url response
      (⟨reply.answer, events ++ reply.events⟩, s)

end Client

end SourceSwitch
