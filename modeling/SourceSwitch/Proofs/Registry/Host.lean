import SourceSwitch.Proofs.Registry.Coordinates
import SourceSwitch.Repository

namespace SourceSwitch

open Text

namespace Host

/-- Neither blanks nor a scheme stand around the host. -/
structure IsBare (t : Text) : Prop where
  trim_eq : trim t = t
  not_https : ¬ "https://".toList <+: t
  not_http : ¬ "http://".toList <+: t

instance : DecidablePred IsBare := fun t =>
  decidable_of_iff (trim t = t ∧ ¬ "https://".toList <+: t ∧ ¬ "http://".toList <+: t)
    ⟨fun ⟨ht, hs, hp⟩ => ⟨ht, hs, hp⟩, fun h => ⟨h.trim_eq, h.not_https, h.not_http⟩⟩

variable {t : Text}

theorem after?_eq_none_iff {lead : Text} : after? lead t = none ↔ ¬ lead <+: t := by
  rw [Option.eq_none_iff_forall_ne_some]
  constructor
  · rintro h ⟨rest, hrest⟩
    exact h rest (after?_eq_some_iff.mpr hrest.symm)
  · intro h rest hrest
    exact h ⟨rest, (after?_eq_some_iff.mp hrest).symm⟩

theorem withoutScheme_of_isBare (h : IsBare t) : withoutScheme t = t := by
  rw [withoutScheme, after?_eq_none_iff.mpr h.not_https, after?_eq_none_iff.mpr h.not_http]
  rfl

theorem withoutScheme_append {scheme : Text}
    (hscheme : scheme = "https://".toList ∨ scheme = "http://".toList) (rest : Text) :
    withoutScheme (scheme ++ rest) = rest := by
  rcases hscheme with rfl | rfl
  · rw [withoutScheme, after?_append]
    rfl
  · have hhttps : after? "https://" ("http://".toList ++ rest) = none := rfl
    rw [withoutScheme, hhttps, after?_append]
    rfl

theorem withoutScheme_sublist (t : Text) : (withoutScheme t).Sublist t := by
  have hrest {lead rest : Text} (h : after? lead t = some rest) : rest.Sublist t := by
    rw [after?_eq_some_iff.mp h]
    exact List.sublist_append_right lead rest
  rw [withoutScheme]
  cases hhttps : after? "https://" t with
  | some rest => exact hrest hhttps
  | none =>
    cases hhttp : after? "http://" t with
    | some rest => exact hrest hhttp
    | none => exact List.Sublist.refl t

theorem isBare_default : IsBare default := by decide

theorem isBare_of_strip_eq (h : stripEnd '/' (withoutScheme (trim t)) = t) : IsBare t := by
  have hscheme := withoutScheme_sublist (trim t)
  have hstrip := stripEnd_sublist '/' (withoutScheme (trim t))
  rw [h] at hstrip
  have htrim : trim t = t := (trim_sublist t).antisymm (hstrip.trans hscheme)
  rw [htrim] at hstrip
  have hwhole {scheme : Text} (hs : scheme = "https://".toList ∨ scheme = "http://".toList) :
      ¬ scheme <+: t := by
    rintro ⟨rest, rfl⟩
    have hlength := hstrip.length_le
    rw [withoutScheme_append hs, List.length_append] at hlength
    have hpos : 0 < scheme.length := by
      rcases hs with rfl | rfl <;> decide
    omega
  exact ⟨htrim, hwhole (.inl rfl), hwhole (.inr rfl)⟩

theorem normalize_eq_self_iff (hne : t ≠ []) (hlast : t.getLast? ≠ some '/') :
    normalize t = t ↔ IsBare t := by
  constructor
  · intro h
    rw [normalize] at h
    cases hrest : nonempty? (stripEnd '/' (withoutScheme (trim t))) with
    | none =>
      rw [hrest, Option.getD_none] at h
      rw [← h]
      exact isBare_default
    | some rest =>
      rw [hrest, Option.getD_some] at h
      apply isBare_of_strip_eq
      rw [(nonempty?_eq_some_iff.mp hrest).1, h]
  · intro h
    rw [normalize, h.trim_eq, withoutScheme_of_isBare h, stripEnd_eq_self hlast,
      nonempty?_eq_some_iff.mpr ⟨rfl, hne⟩, Option.getD_some]

theorem getLast?_normalize (t : Text) : (normalize t).getLast? ≠ some '/' := by
  rw [normalize]
  cases hrest : nonempty? (stripEnd '/' (withoutScheme (trim t))) with
  | none => decide
  | some rest =>
    rw [Option.getD_some, ← (nonempty?_eq_some_iff.mp hrest).1]
    exact getLast?_stripEnd _ _

/-- A second pass changes nothing exactly if the first one has left the host bare. -/
theorem normalize_normalize_iff (t : Text) :
    normalize (normalize t) = normalize t ↔ IsBare (normalize t) :=
  normalize_eq_self_iff (normalize_ne_nil t) (getLast?_normalize t)

end Host

namespace Repository

/-- Everything that settings and repository say about a host is about this one. -/
structure NamesHost (r : Repository) (s : RegistrySettings) (host : Text) : Prop where
  settings : s.normalHost = host
  normal : Host.normalize host = host
  coordinates : (r.coordinates s).host = host
  expectedBase : r.expectedBase s
    = (if host = Host.default then [] else host ++ "/".toList) ++ (r.coordinates s).path
  isPublicHost : s.isPublicHost ↔ host = Host.default
  publishedPrefixes : ∀ lead, lead ∈ s.publishedPrefixes ↔
    lead = host ++ "/" ++ s.publisher ++ "/" ∨
      host = Host.default ∧ lead = s.publisher ++ "/"

/-- Coordinates and expected base name one host, and the settings and prefixes another. -/
structure NamesTwoHosts (r : Repository) (s : RegistrySettings) : Prop where
  coordinates : (r.coordinates s).host ≠ s.normalHost
  expectedBase : r.expectedBase s = (r.coordinates s).host ++ "/" ++ (r.coordinates s).path
  isPublicHost : s.isPublicHost = false
  publishedPrefixes : s.publishedPrefixes = [s.normalHost ++ "/" ++ s.publisher ++ "/"]

variable {r : Repository} {s : RegistrySettings}

theorem host_coordinates_eq (r : Repository) (s : RegistrySettings) :
    (r.coordinates s).host = Host.normalize s.normalHost := by
  rw [coordinates, Coordinates.atHost]

theorem isPublicHost_iff : s.isPublicHost ↔ s.normalHost = Host.default := decide_eq_true_iff

theorem mem_publishedPrefixes_iff (lead : Text) : lead ∈ s.publishedPrefixes ↔
    lead = s.normalHost ++ "/" ++ s.publisher ++ "/" ∨
      s.normalHost = Host.default ∧ lead = s.publisher ++ "/" := by
  rw [RegistrySettings.publishedPrefixes]
  by_cases hpublic : s.isPublicHost
  · rw [if_pos hpublic, List.mem_cons, List.mem_singleton]
    have hdefault := isPublicHost_iff.mp hpublic
    tauto
  · rw [if_neg hpublic, List.mem_singleton]
    have hdefault := mt isPublicHost_iff.mpr hpublic
    tauto

theorem namesHost_of_isBare (h : Host.IsBare s.normalHost) : r.NamesHost s s.normalHost := by
  have hnormal : Host.normalize s.normalHost = s.normalHost :=
    (Host.normalize_normalize_iff s.host).mpr h
  have hcoordinates : (r.coordinates s).host = s.normalHost := by
    rw [host_coordinates_eq, hnormal]
  refine ⟨rfl, hnormal, hcoordinates, ?_, isPublicHost_iff, mem_publishedPrefixes_iff⟩
  by_cases hpublic : s.isPublicHost
  · rw [expectedBase, if_pos hpublic, if_pos (isPublicHost_iff.mp hpublic)]
    rfl
  · rw [expectedBase, if_neg hpublic, if_neg (mt isPublicHost_iff.mpr hpublic), Coordinates.text,
      hcoordinates]

theorem isBare_of_namesHost {host : Text} (h : r.NamesHost s host) : Host.IsBare s.normalHost := by
  have hnormal : Host.normalize s.normalHost = s.normalHost := by
    rw [h.settings, h.normal]
  exact (Host.normalize_normalize_iff s.host).mp hnormal

theorem namesTwoHosts_of_not_isBare (h : ¬ Host.IsBare s.normalHost) : r.NamesTwoHosts s := by
  have hpublic : ¬ s.isPublicHost := by
    intro hpublic
    apply h
    rw [isPublicHost_iff.mp hpublic]
    exact Host.isBare_default
  refine ⟨?_, ?_, ?_, ?_⟩
  · intro hhost
    rw [host_coordinates_eq] at hhost
    exact h ((Host.normalize_normalize_iff s.host).mp hhost)
  · rw [expectedBase, if_neg hpublic, Coordinates.text]
  · rwa [Bool.not_eq_true] at hpublic
  · rw [RegistrySettings.publishedPrefixes, if_neg hpublic]

/-- One host is named throughout exactly if one pass has left the host of the settings bare;
otherwise there are two. -/
theorem exists_namesHost_iff (r : Repository) (s : RegistrySettings) :
    ((∃ host, r.NamesHost s host) ↔ Host.IsBare s.normalHost) ∧
      (¬ Host.IsBare s.normalHost → r.NamesTwoHosts s) := by
  constructor
  · constructor
    · rintro ⟨host, h⟩
      exact isBare_of_namesHost h
    · intro h
      exact ⟨s.normalHost, namesHost_of_isBare h⟩
  · intro h
    exact namesTwoHosts_of_not_isBare h

def doubledScheme : RegistrySettings := ⟨"acme", "https://https://registry.terraform.io", none⟩

theorem normalHost_doubledScheme :
    doubledScheme.normalHost = "https://registry.terraform.io".toList := by
  decide

theorem not_namesHost_doubledScheme :
    (¬ ∃ host, NamesHost ⟨"azure", "vnet"⟩ doubledScheme host) ∧
      doubledScheme.normalHost = "https://registry.terraform.io".toList ∧
      (coordinates ⟨"azure", "vnet"⟩ doubledScheme).host = "registry.terraform.io".toList ∧
      expectedBase ⟨"azure", "vnet"⟩ doubledScheme
        = "registry.terraform.io/acme/vnet/azure".toList ∧
      doubledScheme.publishedPrefixes = ["https://registry.terraform.io/acme/".toList] := by
  have hnot : ¬ ∃ host, NamesHost ⟨"azure", "vnet"⟩ doubledScheme host := by
    rintro ⟨host, h⟩
    have hbare := isBare_of_namesHost h
    rw [normalHost_doubledScheme] at hbare
    exact absurd hbare (by decide)
  have hcoordinates : (coordinates ⟨"azure", "vnet"⟩ doubledScheme).host
      = "registry.terraform.io".toList := by
    decide
  have hbase : expectedBase ⟨"azure", "vnet"⟩ doubledScheme
      = "registry.terraform.io/acme/vnet/azure".toList := by
    decide
  have hprefixes : doubledScheme.publishedPrefixes
      = ["https://registry.terraform.io/acme/".toList] := by
    decide
  exact ⟨hnot, normalHost_doubledScheme, hcoordinates, hbase, hprefixes⟩

end Repository

end SourceSwitch
