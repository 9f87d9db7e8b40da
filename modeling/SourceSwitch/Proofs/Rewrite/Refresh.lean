import SourceSwitch.Proofs.Registry.Coordinates
import SourceSwitch.Proofs.Rewrite.Isolation

namespace SourceSwitch

open Text

namespace RegistrySettings

/-- The base, but for slashes around it, is that of the publisher's module; the host may be left
out. -/
def IsOwnBase (s : RegistrySettings) (c : Coordinates) (base : Text) : Prop :=
  strip '/' base = (⟨s.normalHost, s.publisher, c.name, c.provider⟩ : Coordinates).path ∨
    strip '/' base = (⟨s.normalHost, s.publisher, c.name, c.provider⟩ : Coordinates).text

instance (s : RegistrySettings) (c : Coordinates) : DecidablePred (s.IsOwnBase c) := fun base =>
  inferInstanceAs (Decidable (strip '/' base = _ ∨ strip '/' base = _))

variable {s : RegistrySettings} {c : Coordinates} {base : Text}

theorem trim_publisher (s : RegistrySettings) : trim s.publisher = s.publisher := by
  rw [publisher]
  cases h : s.privateOwner? with
  | none => exact trim_trim _
  | some t =>
    obtain ⟨o, ho, hne⟩ := Option.bind_eq_some_iff.mp h
    obtain ⟨raw, -, rfl⟩ := Option.map_eq_some_iff.mp ho
    obtain ⟨rfl, -⟩ := nonempty?_eq_some_iff.mp hne
    exact trim_trim _

theorem eq_of_starts {first host t : Text} (hfirst : IsSegment first) (hhost : '/' ∉ host)
    (hstarts : first ++ ['/'] <+: base) (hbase : strip '/' base = host ++ '/' :: t) :
    first = host := by
  obtain ⟨u, rfl⟩ := hstarts
  have hhead : (first ++ ['/'] ++ u).head? ≠ some '/' := by
    obtain ⟨d, first, rfl⟩ := List.exists_cons_of_ne_nil hfirst.1
    intro h
    exact hfirst.2 (Option.some.inj h ▸ List.mem_cons_self)
  rw [strip, dropWhile_eq_self hhead] at hbase
  obtain ⟨k, hk⟩ := exists_eq_stripEnd_append '/' (first ++ ['/'] ++ u)
  rw [hbase, List.append_assoc, List.append_assoc, List.cons_append] at hk
  exact (append_slash_inj hfirst.2 hhost hk).1

/-- A host that is written out and has the configured normal form is written in that form. -/
theorem host_eq_of_normalize_eq {host t : Text} (hpublisher : IsSegment s.publisher)
    (hlead : s.publishedPrefixes.any (·.isPrefixOf base)) (hhost : IsSegment host)
    (hnormal : Host.normalize host = s.normalHost) (hbase : strip '/' base = host ++ '/' :: t) :
    host = s.normalHost := by
  have hslash : "/".toList = ['/'] := by decide
  have hbare : s.publisher ++ ['/'] <+: base → host = s.normalHost := by
    intro hstarts
    obtain rfl := eq_of_starts hpublisher hhost.2 hstarts hbase
    rw [← hnormal, Host.normalize_of_isSegment hpublisher s.trim_publisher]
  have hqualified : s.normalHost ++ ['/'] ++ s.publisher ++ ['/'] <+: base →
      host = s.normalHost := by
    intro hstarts
    have hnormalHost : IsSegment s.normalHost := by
      refine ⟨Host.normalize_ne_nil s.host, ?_⟩
      rw [← hnormal]
      exact Host.slash_not_mem_normalize hhost.2
    refine (eq_of_starts hnormalHost hhost.2 (.trans ?_ hstarts) hbase).symm
    rw [List.append_assoc _ s.publisher]
    exact List.prefix_append _ _
  rw [publishedPrefixes, hslash] at hlead
  split at hlead
  · simp only [List.any_cons, List.any_nil, Bool.or_false, Bool.or_eq_true,
      List.isPrefixOf_iff_prefix] at hlead
    exact hlead.elim hbare hqualified
  · simp only [List.any_cons, List.any_nil, Bool.or_false, List.isPrefixOf_iff_prefix] at hlead
    exact hqualified hlead

theorem isOwnBase_of_eq (hlead : s.publishedPrefixes.any (·.isPrefixOf base))
    (h : Coordinates.ofBase? s.normalHost base = some c) (hhost : c.host = s.normalHost)
    (howner : c.owner = s.publisher) : s.IsOwnBase c base := by
  obtain ⟨hsegment, -, -, ⟨-, hbase⟩ | ⟨host, hhost', hnormal, hbase⟩⟩ :=
    Coordinates.exists_of_ofBase? h
  · left
    rw [hbase, Coordinates.path_eq, Coordinates.path_eq, howner]
  · right
    rw [howner] at hsegment
    obtain rfl := host_eq_of_normalize_eq hsegment hlead hhost' (hnormal.symm.trans hhost) hbase
    rw [hbase, Coordinates.text_eq, Coordinates.path_eq, Coordinates.path_eq, howner]

theorem eq_of_isOwnBase (hnormal : Host.normalize s.normalHost = s.normalHost)
    (hpublisher : '/' ∉ s.publisher) (h : Coordinates.ofBase? s.normalHost base = some c)
    (hown : s.IsOwnBase c base) : c.host = s.normalHost ∧ c.owner = s.publisher := by
  obtain ⟨howner, -, -, hform⟩ := Coordinates.exists_of_ofBase? h
  let rest := '/' :: (c.name ++ '/' :: c.provider)
  have hcancel {v w : Text} : v ++ rest = w ++ rest → v = w := List.append_cancel_right
  have hown : strip '/' base = s.publisher ++ rest ∨
      strip '/' base = s.normalHost ++ '/' :: s.publisher ++ rest := by
    simpa [IsOwnBase, Coordinates.text_eq, Coordinates.path_eq] using hown
  have hpath : c.path = c.owner ++ rest := Coordinates.path_eq c
  rw [hpath] at hform
  rcases hform with ⟨hhost, hbase⟩ | ⟨host, hhost, hnormal', hbase⟩ <;>
    rcases hown with hown | hown <;> rw [hbase] at hown
  · exact ⟨hhost.trans hnormal, hcancel hown⟩
  · -- The owner would be host and publisher in one.
    apply absurd _ howner.2
    rw [hcancel hown]
    exact List.mem_append_right _ List.mem_cons_self
  · -- The parts behind the first one would be one too many.
    have hlength := congrArg List.length (append_slash_inj hhost.2 hpublisher hown).2
    simp only [rest, List.length_append, List.length_cons] at hlength
    omega
  · rw [← List.cons_append, ← List.append_assoc] at hown
    obtain ⟨rfl, hequal⟩ := append_slash_inj_right howner.2 hpublisher (hcancel hown)
    exact ⟨hnormal'.trans hnormal, hequal⟩

end RegistrySettings

namespace Mode

variable {s : RegistrySettings} {b : ModuleBlock} {c : Coordinates}

theorem of_asks?_refreshOf (h : (refreshOf s).asks? b = some c) :
    s.publishedPrefixes.any (·.isPrefixOf (baseOf b)) ∧
      Coordinates.ofBase? s.normalHost (baseOf b) = some c := by
  obtain ⟨hqualifies, h⟩ := Option.ite_none_right_eq_some.mp h
  constructor
  · rw [refreshOf, qualifies] at hqualifies
    rw [baseOf]
    cases hbase : b.reference?.bind (·.base?) with
    | none =>
      rw [hbase] at hqualifies
      cases hqualifies
    | some base =>
      rw [hbase] at hqualifies
      exact hqualifies
  · rw [refreshOf, target, Coordinates.ofBase] at h
    cases hbase : Coordinates.ofBase? s.normalHost (baseOf b) with
    | none =>
      rw [hbase] at h
      cases h
    | some c' =>
      rw [hbase] at h
      exact h

theorem unresolved?_of_asks?_eq_none (reply : Coordinates → Reply) (hq : (refreshOf s).qualifies b)
    (h : (refreshOf s).asks? b = none) : (refreshOf s).unresolved? reply b
      = some ⟨b.name, b.startLine, baseOf b, .invalidSource⟩ := by
  have htarget : (refreshOf s).target b = .error (.invalidSource (baseOf b)) := by
    rw [asks?, if_pos hq] at h
    rw [refreshOf, target, Coordinates.ofBase] at h ⊢
    cases hbase : Coordinates.ofBase? s.normalHost (baseOf b) with
    | none => rfl
    | some c' =>
      rw [hbase] at h
      cases h
  rw [unresolved?, if_pos hq, newVersion, targetText, htarget]
  rfl

end Mode

/-- Renewing versions asks for one release per qualifying declaration that has coordinates. The
coordinates are the configured publisher's exactly when the base is written as one of its modules,
and a base without coordinates is reported as invalid. -/
structure ConsultsPublisher (s : RegistrySettings) (content : Text) (t : Transformation)
    (asked : List Coordinates) : Prop where
  asked_eq : asked = (readBlocks (Text.lines content)).filterMap (Mode.refreshOf s).asks?
  own_iff : ∀ b ∈ readBlocks (Text.lines content), ∀ c ∈ (Mode.refreshOf s).asks? b,
    (c.host = s.normalHost ∧ c.owner = s.publisher ↔ s.IsOwnBase c (Mode.baseOf b))
  rejected : ∀ b ∈ readBlocks (Text.lines content), (Mode.refreshOf s).qualifies b →
    (Mode.refreshOf s).asks? b = none →
      ⟨b.name, b.startLine, Mode.baseOf b, .invalidSource⟩ ∈ t.unresolved

theorem transform_consultsPublisher {σ : Type} (ask : Lookup σ) {s : RegistrySettings}
    (hnormal : Host.normalize s.normalHost = s.normalHost) (hpublisher : '/' ∉ s.publisher)
    (content : Text) (state : σ) : ConsultsPublisher s content
      (transform ask (Mode.refreshOf s) content state).1
      ((callsOf ask (Mode.refreshOf s) content state).map (·.coordinates)) := by
  obtain ⟨replies, hreplies, hcalls⟩ := exists_getsReplies ask (Mode.refreshOf s) content state
  refine ⟨?_, fun b _ c hc => ?_, fun b hb hq hasks => ?_⟩
  · rw [hcalls, List.map_filterMap]
    apply List.filterMap_congr
    intro b _
    rw [Option.map_map]
    exact Option.map_id'
  · obtain ⟨hlead, hbase⟩ := Mode.of_asks?_refreshOf hc
    constructor
    · rintro ⟨hhost, howner⟩
      exact RegistrySettings.isOwnBase_of_eq hlead hbase hhost howner
    · exact RegistrySettings.eq_of_isOwnBase hnormal hpublisher hbase
  · rw [hreplies.unresolved_eq, List.mem_filterMap]
    exact ⟨b, hb, Mode.unresolved?_of_asks?_eq_none _ hq hasks⟩

def publisherAt (host : Text) : RegistrySettings := ⟨"acme", host, none⟩

def moduleFrom (base : Text) : Text :=
  joinLines "\n" true [r#"module "vnet" {"#, r#"  source = ""# ++ base ++ "\"", r"}"]

def nothingPublished : Lookup Unit := .fixed fun c => .error (.notFound c.text)

def askedFor (host base : Text) : List Coordinates :=
  (callsOf nothingPublished (Mode.refreshOf (publisherAt host)) (moduleFrom base) ()).map
    (·.coordinates)

theorem transform_consultsPublisher_publisherAt :
    Host.normalize (publisherAt "https://tf.corp/").normalHost
        = (publisherAt "https://tf.corp/").normalHost ∧
      '/' ∉ (publisherAt "https://tf.corp/").publisher ∧
      askedFor "https://tf.corp/" "tf.corp/acme/vnet/azure"
        = [⟨"tf.corp", "acme", "vnet", "azure"⟩] ∧
      ConsultsPublisher (publisherAt "https://tf.corp/") (moduleFrom "tf.corp/acme/vnet/azure")
        (transform nothingPublished (Mode.refreshOf (publisherAt "https://tf.corp/"))
          (moduleFrom "tf.corp/acme/vnet/azure") ()).1
        (askedFor "https://tf.corp/" "tf.corp/acme/vnet/azure") := by
  have hnormal : Host.normalize (publisherAt "https://tf.corp/").normalHost
      = (publisherAt "https://tf.corp/").normalHost := by decide
  have hpublisher : '/' ∉ (publisherAt "https://tf.corp/").publisher := by decide
  exact ⟨hnormal, hpublisher, by decide +kernel,
    transform_consultsPublisher nothingPublished hnormal hpublisher _ ()⟩

/-- A fourth part makes a host of the publisher's name, and a missing one makes an owner of the
host. -/
theorem exists_asked_elsewhere :
    Settings.fault? ⟨publisherAt "", "main.tf", 1⟩ = none ∧
      Settings.fault? ⟨publisherAt "tf.corp", "main.tf", 1⟩ = none ∧
      askedFor "" "acme/vnet/azure/extra" = [⟨"acme", "vnet", "azure", "extra"⟩] ∧
      (publisherAt "").normalHost = "registry.terraform.io".toList ∧
      askedFor "tf.corp" "tf.corp/acme/vnet" = [⟨"tf.corp", "tf.corp", "acme", "vnet"⟩] ∧
      (publisherAt "tf.corp").publisher = "acme".toList := by
  refine ⟨by decide, by decide, by decide +kernel, by decide, by decide +kernel, by decide⟩

end SourceSwitch
