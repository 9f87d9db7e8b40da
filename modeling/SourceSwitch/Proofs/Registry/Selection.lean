import SourceSwitch.Proofs.Version.Admission
import SourceSwitch.Registry.Client

namespace SourceSwitch

variable {address address' : Text} {texts texts' : List Text} {answer answer' : Answer}
    {r r' : Release}

inductive AnswerKind where
  | release (major : Nat)
  | invalidSource | notFound | network | invalidResponse
deriving DecidableEq, Repr

namespace Answer

def kind : Answer → AnswerKind
  | .ok r => .release r.major
  | .error (.invalidSource _) => .invalidSource
  | .error (.notFound _) => .notFound
  | .error (.network _) => .network
  | .error (.invalidResponse _) => .invalidResponse

/-- The answer that version texts call for. -/
structure IsFor (texts : List Text) (answer : Answer) : Prop where
  invalidResponse_iff : answer.kind = .invalidResponse ↔ ∃ t ∈ texts, Version.parse? t = none
  notFound_iff : answer.kind = .notFound ↔ texts = []
  ok_iff : ∀ r, answer = .ok r ↔ ∃ v, Version.IsLatest texts r.version v ∧ r.major = v.major

end Answer

namespace Release

theorem kind_latestOf_eq_invalidResponse_iff (address : Text) (texts : List Text) :
    (latestOf address texts).kind = .invalidResponse ↔ ∃ e, Version.latest? texts = .error e := by
  unfold latestOf
  split
  · next e he => exact ⟨fun _ => ⟨e, he⟩, fun _ => rfl⟩
  · next hnone => exact ⟨nofun, fun ⟨e, he⟩ => absurd (hnone.symm.trans he) nofun⟩
  · next hsome => exact ⟨nofun, fun ⟨e, he⟩ => absurd (hsome.symm.trans he) nofun⟩

theorem kind_latestOf_eq_notFound_iff (address : Text) (texts : List Text) :
    (latestOf address texts).kind = .notFound ↔ Version.latest? texts = .ok none := by
  unfold latestOf
  split
  · next he => exact ⟨nofun, fun h => absurd (he.symm.trans h) nofun⟩
  · next hnone => exact ⟨fun _ => hnone, fun _ => rfl⟩
  · next hsome => exact ⟨nofun, fun h => absurd (hsome.symm.trans h) nofun⟩

theorem latestOf_eq_ok_iff (address : Text) (texts : List Text) (r : Release) :
    latestOf address texts = .ok r ↔
      ∃ v, Version.latest? texts = .ok (some (r.version, v)) ∧ r.major = v.major := by
  unfold latestOf
  split
  · next he => exact ⟨nofun, fun ⟨v, hv, _⟩ => absurd (he.symm.trans hv) nofun⟩
  · next hnone => exact ⟨nofun, fun ⟨v, hv, _⟩ => absurd (hnone.symm.trans hv) nofun⟩
  · next raw v hsome =>
    constructor
    · rintro ⟨⟩
      exact ⟨v, hsome, rfl⟩
    · rintro ⟨w, hw, hmajor⟩
      obtain ⟨rfl, rfl⟩ := Prod.mk.inj (Option.some.inj (Except.ok.inj (hsome.symm.trans hw)))
      exact congrArg Except.ok (congrArg (mk r.version) hmajor.symm)

theorem isFor_latestOf (address : Text) (texts : List Text) :
    Answer.IsFor texts (latestOf address texts) := by
  have hselects := Version.selects_latest? texts
  constructor
  · rw [kind_latestOf_eq_invalidResponse_iff, hselects.fails_iff]
  · rw [kind_latestOf_eq_notFound_iff, hselects.none_iff]
  · intro r
    simp only [latestOf_eq_ok_iff, hselects.some_iff]

theorem latestOf_cases (address : Text) (texts : List Text) :
    (latestOf address texts).kind = .invalidResponse ∨ (latestOf address texts).kind = .notFound ∨
      ∃ r, latestOf address texts = .ok r := by
  unfold latestOf
  split
  · exact .inl rfl
  · exact .inr (.inl rfl)
  · exact .inr (.inr ⟨_, rfl⟩)

theorem exists_pin_of_perm (hperm : texts.Perm texts') (hr : latestOf address texts = .ok r)
    (hr' : latestOf address' texts' = .ok r') : r.major = r'.major ∧
      ∃ k, Constraint.pin r.version r.major = .ok k ∧
        Constraint.pin r'.version r'.major = .ok k := by
  obtain ⟨v, hv, hmajor⟩ := ((isFor_latestOf address texts).ok_iff r).mp hr
  obtain ⟨w, hw, hmajor'⟩ := ((isFor_latestOf address' texts').ok_iff r').mp hr'
  obtain rfl := hv.eq_of_perm hperm hw
  rw [hmajor, hmajor']
  exact ⟨rfl, _, Constraint.pin_of_parse? hv.parse?_eq, Constraint.pin_of_parse? hw.parse?_eq⟩

theorem kind_latestOf_of_perm (hperm : texts.Perm texts') :
    (latestOf address texts).kind = (latestOf address' texts').kind := by
  have h := isFor_latestOf address texts
  have h' := isFor_latestOf address' texts'
  have hmalformed : (latestOf address texts).kind = .invalidResponse ↔
      (latestOf address' texts').kind = .invalidResponse := by
    rw [h.invalidResponse_iff, h'.invalidResponse_iff]
    exact ⟨fun ⟨t, ht, hnone⟩ => ⟨t, hperm.subset ht, hnone⟩,
      fun ⟨t, ht, hnone⟩ => ⟨t, hperm.symm.subset ht, hnone⟩⟩
  have hempty : (latestOf address texts).kind = .notFound ↔
      (latestOf address' texts').kind = .notFound := by
    rw [h.notFound_iff, h'.notFound_iff]
    exact ⟨fun he => (he ▸ hperm).nil_eq.symm, fun he => (he ▸ hperm).eq_nil⟩
  rcases latestOf_cases address texts with hkind | hkind | ⟨r, hr⟩
  · rw [hkind, hmalformed.mp hkind]
  · rw [hkind, hempty.mp hkind]
  · rcases latestOf_cases address' texts' with hkind | hkind | ⟨r', hr'⟩
    · rw [hkind, hmalformed.mpr hkind]
    · rw [hkind, hempty.mpr hkind]
    · rw [hr, hr']
      exact congrArg AnswerKind.release (exists_pin_of_perm hperm hr hr').1

end Release

namespace Client

variable {σ τ : Type} {client client' : Client} {http : Http σ} {http' : Http τ}
  {c c' : Coordinates} {s : σ} {t : τ}

/-- The lookup is answered with success and with a catalog that lists the texts. -/
def IsServed (client : Client) (http : Http σ) (c : Coordinates) (s : σ)
    (texts : List Text) : Prop :=
  ∃ request response, http.build (client.order c).1 = .ok request ∧
    (http.send request s).1 = .ok response ∧ Status.isSuccess response.status ∧
    Catalog.versions? response.body = some texts

theorem answer_of_isServed (h : client.IsServed http c s texts) :
    (client.lookup http c s).1.answer = Release.latestOf c.text texts := by
  obtain ⟨request, response, hbuild, hsend, hstatus, hversions⟩ := h
  have hfound : response.status ≠ Status.notFound := by
    intro hfound
    rw [hfound] at hstatus
    exact absurd hstatus (by decide)
  have hanswer : (judge c (client.order c).1.url response).answer
      = Release.latestOf c.text texts := by
    rw [judge, if_neg hfound, if_neg (not_not.mpr hstatus), hversions]
  rw [← hanswer]
  generalize hreply : http.send request s = reply at hsend
  obtain ⟨_, s'⟩ := reply
  cases hsend
  simp only [lookup, hbuild, hreply]

/-- From a list of texts the earliest of the highest versions is chosen, and the first text that is
no version fails it. So two catalogs of the same texts are answered alike: with errors of one kind,
or with releases of one major number and one constraint. -/
theorem lookup_isSelection :
    (∀ texts, Version.Selects texts (Version.latest? texts)) ∧
    ∀ {σ τ : Type} {client client' : Client} {http : Http σ} {http' : Http τ}
      {c c' : Coordinates} {s : σ} {t : τ} {texts texts' : List Text},
      client.IsServed http c s texts → client'.IsServed http' c' t texts' → texts.Perm texts' →
      let answer := (client.lookup http c s).1.answer
      let answer' := (client'.lookup http' c' t).1.answer
      answer.IsFor texts ∧ answer.kind = answer'.kind ∧
        ∀ r r', answer = .ok r → answer' = .ok r' → r.major = r'.major ∧
          ∃ k, Constraint.pin r.version r.major = .ok k ∧
            Constraint.pin r'.version r'.major = .ok k := by
  refine ⟨Version.selects_latest?, ?_⟩
  intro σ τ client client' http http' c c' s t texts texts' h h' hperm answer answer'
  have hanswer : answer = _ := answer_of_isServed h
  have hanswer' : answer' = _ := answer_of_isServed h'
  rw [hanswer, hanswer']
  exact ⟨Release.isFor_latestOf _ _, Release.kind_latestOf_of_perm hperm,
    fun r r' => Release.exists_pin_of_perm hperm⟩

def plain : Client := ofPath "/v1/modules" []

def vnet : Coordinates := ⟨Host.default, "acme", "vnet", "azure"⟩

def twoModules : ByteArray := String.toUTF8 <|
  r#"{"modules":[{"versions":[{"version":"0.9.1"},{"version":"0.10"}]},"#
    ++ r#"{"versions":[{"version":" 0.10.0-rc"}]}]}"#

def oneModule : ByteArray := String.toUTF8 <|
  r#"{"modules":[{"id":null},{"versions":[{"version":" 0.10.0-rc"},"#
    ++ r#"{"version":"0.9.1"},{"version":"0.10"}]}]}"#

def serving (status : Nat) (body : ByteArray) : Http Unit where
  build o := .ok ⟨o.url, []⟩
  send r s := (.ok ⟨r.url, status, body⟩, s)

theorem lookup_isSelection_twoOrders :
    let texts : List Text := ["0.9.1", "0.10", " 0.10.0-rc"]
    let texts' : List Text := [" 0.10.0-rc", "0.9.1", "0.10"]
    let http := serving 200 twoModules
    let http' := serving 206 oneModule
    (plain.IsServed http vnet () texts ∧ plain.IsServed http' vnet () texts' ∧ texts.Perm texts') ∧
      (plain.lookup http vnet ()).1.answer = .ok ⟨"0.10", 0⟩ ∧
      (plain.lookup http' vnet ()).1.answer = .ok ⟨" 0.10.0-rc", 0⟩ ∧
      ∃ k, Constraint.pin "0.10" 0 = .ok k ∧ Constraint.pin " 0.10.0-rc" 0 = .ok k ∧
        k.text = "~> 0.10".toList := by
  intro texts texts' http http'
  have h : plain.IsServed http vnet () texts :=
    ⟨_, _, rfl, rfl, by decide, by decide +kernel⟩
  have h' : plain.IsServed http' vnet () texts' :=
    ⟨_, _, rfl, rfl, by decide, by decide +kernel⟩
  have hperm : texts.Perm texts' := by decide
  have hr : (plain.lookup http vnet ()).1.answer = .ok ⟨"0.10", 0⟩ :=
    (answer_of_isServed h).trans (by decide +kernel)
  have hr' : (plain.lookup http' vnet ()).1.answer = .ok ⟨" 0.10.0-rc", 0⟩ :=
    (answer_of_isServed h').trans (by decide +kernel)
  obtain ⟨-, k, hk, hk'⟩ := (lookup_isSelection.2 h h' hperm).2.2 _ _ hr hr'
  refine ⟨⟨h, h', hperm⟩, hr, hr', k, hk, hk', ?_⟩
  have hpin : Constraint.pin "0.10" 0 = .ok ⟨0, 10⟩ := by decide +kernel
  rw [Except.ok.inj (hk.symm.trans hpin)]
  decide

end Client

end SourceSwitch
