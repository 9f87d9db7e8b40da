import Mathlib.Data.List.Chain
import SourceSwitch.Proofs.Registry.Coordinates
import SourceSwitch.Registry.Client
import SourceSwitch.Settings

namespace SourceSwitch

namespace Host

def AreSpaced (x y : Char) : Prop := (x = '.' → y ≠ '.' ∧ y ≠ '-') ∧ (x = '-' → y ≠ '.')

instance (x y : Char) : Decidable (AreSpaced x y) :=
  inferInstanceAs (Decidable ((x = '.' → y ≠ '.' ∧ y ≠ '-') ∧ (x = '-' → y ≠ '.')))

/-- A host without underscores, in which no dot stands beside a dot or a dash. -/
structure IsSpaced (host : Text) : Prop where
  underscore_not_mem : '_' ∉ host
  isChain : host.IsChain AreSpaced

instance : DecidablePred IsSpaced := fun host =>
  decidable_of_iff ('_' ∉ host ∧ host.IsChain AreSpaced)
    ⟨fun ⟨h, h'⟩ => ⟨h, h'⟩, fun ⟨h, h'⟩ => ⟨h, h'⟩⟩

variable {x y : Char} {t u host host' : Text}

theorem IsSpaced.tail (h : IsSpaced (x :: t)) : IsSpaced t :=
  ⟨fun hmem => h.underscore_not_mem (List.mem_cons_of_mem x hmem), h.isChain.tail⟩

theorem IsSpaced.ne_underscore (h : IsSpaced (x :: t)) : x ≠ '_' :=
  fun hx => h.underscore_not_mem (hx ▸ List.mem_cons_self)

def written (x : Char) : Text := if x = '-' then ['_', '_'] else if x = '.' then ['_'] else [x]

@[simp] theorem written_dash : written '-' = ['_', '_'] := rfl

@[simp] theorem written_dot : written '.' = ['_'] := rfl

theorem written_cases (x : Char) : x = '-' ∨ x = '.' ∨ written x = [x] := by
  unfold written
  split
  · exact .inl ‹_›
  · split
    · exact .inr (.inl ‹_›)
    · exact .inr (.inr rfl)

theorem replace_replace (host : Text) :
    Text.replace '.' "_" (Text.replace '-' "__" host) = host.flatMap written := by
  have hdot : "_".toList = ['_'] := by decide
  rw [Text.replace, Text.replace, List.flatMap_assoc]
  congr 1
  funext x
  rw [written]
  split
  · decide
  · rw [List.flatMap_singleton, hdot]

theorem tokenVariable_eq (host : Text) :
    tokenVariable host = "TF_TOKEN_".toList ++ host.flatMap written :=
  congrArg ("TF_TOKEN_".toList ++ ·) (replace_replace host)

theorem flatMap_written_ne_nil (x : Char) (t : Text) : (x :: t).flatMap written ≠ [] := by
  rcases written_cases x with rfl | rfl | hx
  · simp
  · simp
  · simp [hx]

theorem flatMap_written_ne (h : IsSpaced ('.' :: t)) : t.flatMap written ≠ '_' :: u := by
  cases t with
  | nil => nofun
  | cons x t =>
    obtain ⟨hdot, hdash⟩ := (List.isChain_cons_cons.mp h.isChain).1.1 rfl
    intro he
    rw [List.flatMap_cons, written, if_neg hdash, if_neg hdot] at he
    exact h.tail.ne_underscore (List.cons.inj he).1

/-- The runs of underscores tell dots and dashes apart: one for a dot, an even number for dashes. -/
theorem flatMap_written_inj (h : IsSpaced host) (h' : IsSpaced host')
    (he : host.flatMap written = host'.flatMap written) : host = host' := by
  induction host generalizing host' with
  | nil =>
    cases host' with
    | nil => rfl
    | cons y host' => exact absurd he.symm (flatMap_written_ne_nil y host')
  | cons x host ih =>
    cases host' with
    | nil => exact absurd he (flatMap_written_ne_nil x host)
    | cons y host' =>
      rw [List.flatMap_cons, List.flatMap_cons] at he
      rcases written_cases x with rfl | rfl | hx
      · rcases written_cases y with rfl | rfl | hy
        · rw [ih h.tail h'.tail (List.append_cancel_left he)]
        · exact absurd (List.cons.inj he).2.symm (flatMap_written_ne h')
        · rw [hy] at he
          exact absurd (List.cons.inj he).1.symm h'.ne_underscore
      · rcases written_cases y with rfl | rfl | hy
        · exact absurd (List.cons.inj he).2 (flatMap_written_ne h)
        · rw [ih h.tail h'.tail (List.append_cancel_left he)]
        · rw [hy] at he
          exact absurd (List.cons.inj he).1.symm h'.ne_underscore
      · rw [hx] at he
        rcases written_cases y with rfl | rfl | hy
        · exact absurd (List.cons.inj he).1 h.ne_underscore
        · exact absurd (List.cons.inj he).1 h.ne_underscore
        · rw [hy] at he
          obtain ⟨rfl, hrest⟩ := List.cons.inj he
          exact congrArg (x :: ·) (ih h.tail h'.tail hrest)

theorem tokenVariable_inj (h : IsSpaced host) (h' : IsSpaced host')
    (he : tokenVariable host = tokenVariable host') : host = host' := by
  rw [tokenVariable_eq, tokenVariable_eq] at he
  exact flatMap_written_inj h h' (List.append_cancel_left he)

end Host

namespace TokenSource

theorem firstToken_fst (host : Text) (sources : List TokenSource) :
    (firstToken host sources).1 = sources.findSome? fun source => (source.token host).1 := by
  induction sources with
  | nil => rfl
  | cons source sources ih =>
    rw [List.findSome?_cons, firstToken]
    obtain ⟨token, events⟩ := source.token host
    cases token with
    | none => exact ih
    | some token => rfl

theorem fromEnvironment_congr {valueOf valueOf' : Text → Option Text} {host : Text}
    (h : valueOf (Host.tokenVariable host) = valueOf' (Host.tokenVariable host)) :
    fromEnvironment valueOf host = fromEnvironment valueOf' host := by
  simp only [fromEnvironment, h]

end TokenSource

namespace Http

def isHeaderValue (t : Text) : Bool := t.all fun c => c = '\t' || 0x20 ≤ c.toNat && c.toNat ≠ 0x7F

/-- A host without the characters that end it, that stand behind user information, or that are
dropped from addresses. -/
def IsPlainHost (host : Text) : Prop := host ≠ [] ∧ ∀ c ∈ host, c ∉ "@/\\?#\t\r\n".toList

instance : DecidablePred IsPlainHost := fun host =>
  inferInstanceAs (Decidable (host ≠ [] ∧ ∀ c ∈ host, c ∉ "@/\\?#\t\r\n".toList))

/-- What is documented of the library. User information in an address is an authorization value
of its own, which stands in front of the token; and a token that is no header value is refused. -/
structure IsDocumented {σ : Type} (http : Http σ) (own : Text → Option Text) : Prop where
  authorization : ∀ o r, http.build o = .ok r →
    r.authorization = (own o.url).toList ++ (o.bearer.map ("Bearer ".toList ++ ·)).toList
  refused : ∀ o, ∀ t ∈ o.bearer, ¬ isHeaderValue t → ∃ fault, http.build o = .error fault
  plain : ∀ host path, IsPlainHost host → path.head? = some '/' →
    own ("https://".toList ++ host ++ path) = none

def recorded {σ : Type} (http : Http σ) : Http (List Request × σ) where
  build := http.build
  send r := fun (sent, s) => ((http.send r s).1, (sent ++ [r], (http.send r s).2))

end Http

namespace Client

variable {σ : Type} {http : Http σ} {own : Text → Option Text} {client : Client} {c : Coordinates}
  {s : σ} {r : Request}

def sent (client : Client) (http : Http σ) (c : Coordinates) (s : σ) : List Request :=
  (client.lookup http.recorded c ([], s)).2.1

theorem lookup_of_error {fault : TransportFault} (h : http.build (client.order c).1 = .error fault)
    (s : σ) : client.lookup http c s = (⟨.error (.network fault), (client.order c).2⟩, s) := by
  simp only [lookup, h]

theorem sent_of_error {fault : TransportFault} (h : http.build (client.order c).1 = .error fault)
    (s : σ) : client.sent http c s = [] := by
  have hrecorded : http.recorded.build (client.order c).1 = .error fault := h
  rw [sent, lookup_of_error hrecorded]

theorem sent_of_ok (h : http.build (client.order c).1 = .ok r) (s : σ) :
    client.sent http c s = [r] := by
  simp only [sent, lookup, Http.recorded, h]
  obtain ⟨response, s'⟩ := http.send r s
  cases response <;> rfl

theorem token_default (client : Client) : client.token Host.default = (none, []) := if_pos rfl

theorem token_fst (h : c.host ≠ Host.default) :
    (client.token c.host).1
      = client.credentials.findSome? fun source => (source.token c.host).1 := by
  rw [token, if_neg h, ← TokenSource.firstToken_fst]
  obtain ⟨found, events⟩ := TokenSource.firstToken c.host client.credentials
  cases found <;> rfl

/-- All that a lookup sends is one request, with the authorization values of its address and of the
token. -/
structure SendsWith (client : Client) (http : Http σ) (own : Text → Option Text) (c : Coordinates)
    (s : σ) (token : Option Text) : Prop where
  authorization : ∀ r ∈ client.sent http c s, r.authorization
    = (own (client.url c)).toList ++ (token.map ("Bearer ".toList ++ ·)).toList
  /-- A token that is no header value keeps the lookup from sending anything. -/
  unfit : ∀ t ∈ token, ¬ Http.isHeaderValue t → client.sent http c s = [] ∧
    ∃ fault, (client.lookup http c s).1.answer = .error (.network fault)
  fit : ∀ r, http.build (client.order c).1 = .ok r → client.sent http c s = [r]

theorem sendsWith (h : http.IsDocumented own) (client : Client) (c : Coordinates) (s : σ) :
    client.SendsWith http own c s (client.token c.host).1 := by
  constructor
  · intro r hr
    cases hbuild : http.build (client.order c).1 with
    | error fault =>
      rw [sent_of_error hbuild] at hr
      cases hr
    | ok r' =>
      rw [sent_of_ok hbuild, List.mem_singleton] at hr
      rw [hr]
      exact h.authorization _ _ hbuild
  · intro t ht hvalue
    obtain ⟨fault, hbuild⟩ := h.refused (client.order c).1 t ht hvalue
    refine ⟨sent_of_error hbuild s, fault, ?_⟩
    rw [lookup_of_error hbuild]
  · intro r hbuild
    exact sent_of_ok hbuild s

def withCredentials (chain : List TokenSource) (client : Client) : Client :=
  { client with credentials := chain }

theorem order_withCredentials (h : c.host = Host.default) (chain : List TokenSource)
    (client : Client) : (client.withCredentials chain).order c = client.order c := by
  have htoken (client : Client) : client.token c.host = (none, []) := by
    rw [h]
    exact token_default client
  simp only [order, htoken]
  rfl

theorem lookup_withCredentials (h : c.host = Host.default) (chain : List TokenSource)
    (http : Http σ) (s : σ) :
    (client.withCredentials chain).lookup http c s = client.lookup http c s := by
  simp only [lookup, order_withCredentials h]

theorem own_url (h : http.IsDocumented own) (hhost : Http.IsPlainHost c.host)
    (hendpoint : client.endpoint = none) (hpath : client.apiPath.head? ≠ none →
      client.apiPath.head? = some '/') : own (client.url c) = none := by
  have hurl : client.url c
      = "https://".toList ++ c.host
        ++ (client.apiPath ++ '/' :: (c.path ++ "/versions".toList)) := by
    have hslash : "/".toList = ['/'] := by decide
    rw [url, hendpoint, Option.getD_none, hslash]
    simp only [List.append_assoc, List.cons_append, List.nil_append]
  rw [hurl]
  apply h.plain _ _ hhost
  cases happ : client.apiPath with
  | nil => rfl
  | cons x path =>
    rw [happ] at hpath
    exact hpath nofun

/-- The variable of a spaced host tells it from every other one, so that no token of another host is
found in the environment. The public registry is asked without a token and regardless of those that
there are, and any other host with the first token that there is for it; the request has no other
authorization value than that of its address, and the address of a plain host has none. -/
theorem tokens_stayWithHost :
    (∀ host host', Host.IsSpaced host → Host.IsSpaced host' → host ≠ host' →
      Host.tokenVariable host ≠ Host.tokenVariable host' ∧
      ∀ valueOf valueOf' : Text → Option Text,
        (∀ name, name ≠ Host.tokenVariable host' → valueOf name = valueOf' name) →
        (TokenSource.environment valueOf).token host
          = (TokenSource.environment valueOf').token host) ∧
    (∀ {σ : Type} (http : Http σ) (client : Client) (chain chain' : List TokenSource)
      (c : Coordinates) (s : σ), c.host = Host.default →
      (client.withCredentials chain).order c = (client.withCredentials chain').order c ∧
      (client.withCredentials chain).sent http c s = (client.withCredentials chain').sent http c s ∧
      (client.withCredentials chain).lookup http c s
        = (client.withCredentials chain').lookup http c s) ∧
    ∀ {σ : Type} {http : Http σ} {own : Text → Option Text}, http.IsDocumented own →
      ∀ (client : Client) (c : Coordinates) (s : σ),
        (c.host = Host.default → client.SendsWith http own c s none) ∧
        (c.host ≠ Host.default → client.SendsWith http own c s
          (client.credentials.findSome? fun source => (source.token c.host).1)) ∧
        (Http.IsPlainHost c.host → client.endpoint = none →
          (client.apiPath.head? ≠ none → client.apiPath.head? = some '/') →
          own (client.url c) = none) := by
  refine ⟨?_, ?_, ?_⟩
  · intro host host' h h' hne
    have hvariable := mt (Host.tokenVariable_inj h h') hne
    exact ⟨hvariable, fun valueOf valueOf' hagree =>
      TokenSource.fromEnvironment_congr (hagree _ hvariable)⟩
  · intro σ http client chain chain' c s hdefault
    refine ⟨?_, ?_, ?_⟩
    · rw [order_withCredentials hdefault, order_withCredentials hdefault]
    · rw [sent, sent, lookup_withCredentials hdefault, lookup_withCredentials hdefault]
    · rw [lookup_withCredentials hdefault, lookup_withCredentials hdefault]
  · intro σ http own h client c s
    have hsends := sendsWith h client c s
    refine ⟨?_, ?_, own_url h⟩
    · intro hdefault
      rw [hdefault, token_default] at hsends
      exact hsends
    · intro hother
      rw [token_fst hother] at hsends
      exact hsends

def mixedChain : List TokenSource :=
  [.environment fun _ => some "  ",
    .file "credentials.json" (some r#"{"credentials":{"tf.corp":{"token":"s3"}}}"#),
    .environment fun _ => some "later"]

def atHost (host : Text) : Coordinates := ⟨host, "acme", "vnet", "azure"⟩

end Client

namespace Http

def knownStart : Text := "https://bob:pw@tf.corp/"

def knownUser (url : Text) : Option Text :=
  (Text.after? knownStart url).map fun _ => "Basic Ym9iOnB3"

/-- A library that knows this user, and takes all other addresses as they are. -/
def knowing : Http Unit where
  build o :=
    if o.bearer.all isHeaderValue then
      let url := ((Text.after? knownStart o.url).map ("https://tf.corp/".toList ++ ·)).getD o.url
      .ok ⟨url, (knownUser o.url).toList ++ (o.bearer.map ("Bearer ".toList ++ ·)).toList⟩
    else .error ⟨"builder error"⟩
  send r s := (.error ⟨"error sending request for url (" ++ r.url ++ ")"⟩, s)

theorem knownUser_plain {host path : Text} (hhost : IsPlainHost host)
    (hpath : path.head? = some '/') : knownUser ("https://".toList ++ host ++ path) = none := by
  rw [knownUser, Option.map_eq_none_iff]
  by_contra hne
  obtain ⟨rest, hrest⟩ := Option.ne_none_iff_exists'.mp hne
  obtain ⟨path, rfl⟩ : ∃ t, path = '/' :: t := List.head?_eq_some_iff.mp hpath
  have hstart : knownStart = "https://".toList ++ ("bob:pw@tf.corp".toList ++ ['/']) := by decide
  have heq := Text.after?_eq_some_iff.mp hrest
  rw [hstart, List.append_assoc, List.append_assoc, List.append_assoc] at heq
  have hslash : '/' ∉ host := fun hmem => hhost.2 _ hmem (by decide)
  obtain ⟨rfl, -⟩ := append_slash_inj hslash (by decide) (List.append_cancel_left heq)
  exact hhost.2 '@' (by decide) (by decide)

theorem isDocumented_knowing : knowing.IsDocumented knownUser := by
  constructor
  · intro o r h
    rw [knowing] at h
    simp only at h
    split at h
    · obtain rfl := Except.ok.inj h
      rfl
    · cases h
  · intro o t ht hvalue
    refine ⟨_, if_neg ?_⟩
    rw [Option.mem_def.mp ht]
    exact hvalue
  · intro host path hhost hpath
    exact knownUser_plain hhost hpath

end Http

namespace Client

theorem tokens_stayWithHost_mixedChain :
    let client := ofPath "/v1/modules" mixedChain
    (Host.IsSpaced "a--b.c" ∧ Host.IsSpaced "a.b--c" ∧ Http.knowing.IsDocumented Http.knownUser) ∧
      Host.tokenVariable "a--b.c" ≠ Host.tokenVariable "a.b--c" ∧
      client.sent Http.knowing (atHost "tf.corp") ()
        = [⟨"https://tf.corp/v1/modules/acme/vnet/azure/versions", ["Bearer s3"]⟩] ∧
      (∀ r ∈ client.sent Http.knowing (atHost "tf.corp") (), r.authorization
        = ["Bearer s3".toList]) ∧
      ∀ r ∈ client.sent Http.knowing (atHost Host.default) (), r.authorization = [] := by
  intro client
  have h : Host.IsSpaced "a--b.c" := by decide
  have h' : Host.IsSpaced "a.b--c" := by decide
  have hhttp := Http.isDocumented_knowing
  have htoken : client.credentials.findSome? (fun source =>
      (source.token (atHost "tf.corp").host).1)
      = some "s3".toList := by decide +kernel
  obtain ⟨-, hother, hplain⟩ := tokens_stayWithHost.2.2 hhttp client (atHost "tf.corp") ()
  obtain ⟨hdefault, -, hplain'⟩ := tokens_stayWithHost.2.2 hhttp client (atHost Host.default) ()
  have hsends := hother (by decide)
  have hown := hplain (by decide) rfl (by decide)
  have hown' := hplain' (by decide) rfl (by decide)
  refine ⟨⟨h, h', hhttp⟩, (tokens_stayWithHost.1 _ _ h h' (by decide)).1, ?_, ?_, ?_⟩
  · exact hsends.fit _ (by decide +kernel)
  · rw [htoken] at hsends
    intro r hr
    rw [hsends.authorization r hr, hown]
    decide
  · intro r hr
    rw [(hdefault rfl).authorization r hr, hown']
    rfl

/-- User information in a host becomes an authorization value, without a token and beside one. -/
theorem exists_authorization_of_user :
    Settings.fault? ⟨⟨"acme", "bob:pw@tf.corp", none⟩, "main.tf", 1⟩ = none ∧
      (RegistrySettings.mk "acme" "bob:pw@tf.corp" none).normalHost = "bob:pw@tf.corp".toList ∧
      Http.knowing.IsDocumented Http.knownUser ∧
      (ofPath "/v1/modules" []).sent Http.knowing (atHost "bob:pw@tf.corp") ()
        = [⟨"https://tf.corp/v1/modules/acme/vnet/azure/versions", ["Basic Ym9iOnB3"]⟩] ∧
      (ofPath "/v1/modules" [.environment fun _ => some "s3"]).sent Http.knowing
          (atHost "bob:pw@tf.corp") ()
        = [⟨"https://tf.corp/v1/modules/acme/vnet/azure/versions",
            ["Basic Ym9iOnB3", "Bearer s3"]⟩] := by
  refine ⟨by decide, by decide, Http.isDocumented_knowing, ?_, ?_⟩
  · exact sent_of_ok (by decide +kernel) ()
  · exact sent_of_ok (by decide +kernel) ()

end Client

end SourceSwitch
