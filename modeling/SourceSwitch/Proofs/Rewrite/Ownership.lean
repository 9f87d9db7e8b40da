import SourceSwitch.Proofs.Repository
import SourceSwitch.Proofs.Rewrite.Verdict

namespace SourceSwitch

open Text
open ModuleSource (IsSubpath classify publishedText)

namespace Repository

variable {r : Repository} {s : RegistrySettings} {subpath : Option Text} {source : Text}

namespace IsPlain

theorem ofBase?_expectedBase (h : r.IsPlain s) :
    Coordinates.ofBase? s.normalHost (r.expectedBase s) = some (r.coordinates s) := by
  have hhost : IsSegment (r.coordinates s).host := by
    rw [h.host_coordinates]
    exact h.host.isSegment
  have howner : IsSegment (r.coordinates s).owner := h.publisher.isHostName.isSegment
  have hname : IsSegment (r.coordinates s).name := h.moduleName.isHostName.isSegment
  have hprovider : IsSegment (r.coordinates s).provider := h.provider.isHostName.isSegment
  rw [expectedBase]
  split
  · exact Coordinates.ofBase?_path howner hname hprovider s.normalHost
  · rw [Coordinates.ofBase?_text hhost howner hname hprovider, h.host_coordinates]
    rfl

theorem exists_lead (h : r.IsPlain s) : ∃ lead ∈ s.publishedPrefixes,
    lead <+: r.expectedBase s := by
  have hslash : "/".toList = ['/'] := by decide
  rw [expectedBase, RegistrySettings.publishedPrefixes]
  split
  · refine ⟨_, List.mem_cons_self, r.moduleName ++ '/' :: r.provider, ?_⟩
    simp [Coordinates.path_eq, hslash, coordinates, Coordinates.atHost]
  · refine ⟨_, List.mem_cons_self, r.moduleName ++ '/' :: r.provider, ?_⟩
    rw [Coordinates.text_eq, h.host_coordinates]
    simp [Coordinates.path_eq, hslash, coordinates, Coordinates.atHost]

end IsPlain

/-- The source refers to the repository's module for every mode. -/
structure IsOwnSource (r : Repository) (s : RegistrySettings) (subpath : Option Text)
    (source : Text) : Prop where
  classify_eq : classify source = .published (r.expectedBase s) subpath
  starts : ∃ lead ∈ s.publishedPrefixes, lead <+: source
  ofBase_eq : Coordinates.ofBase s.normalHost (r.expectedBase s) = .ok (r.coordinates s)
  qualifies : ∀ b : ModuleBlock, b.source = some source → (Mode.toTreeOf r s).qualifies b ∧
    (Mode.toRegistryOf r s).qualifies b ∧ (Mode.refreshOf s).qualifies b
  asks : ∀ b : ModuleBlock, b.source = some source →
    (Mode.toRegistryOf r s).asks? b = some (r.coordinates s) ∧
      (Mode.refreshOf s).asks? b = some (r.coordinates s)

theorem prefix_publishedText (base : Text) (subpath : Option Text) :
    base <+: publishedText base subpath := by
  cases subpath with
  | none => exact List.prefix_rfl
  | some t =>
    rw [publishedText, List.append_assoc]
    exact List.prefix_append _ _

theorem isOwnSource_of_classify (h : r.IsPlain s)
    (hclassify : classify source = .published (r.expectedBase s) subpath)
    (hstarts : r.expectedBase s <+: source) : r.IsOwnSource s subpath source := by
  obtain ⟨lead, hmem, hlead⟩ := h.exists_lead
  have hofBase : Coordinates.ofBase s.normalHost (r.expectedBase s) = .ok (r.coordinates s) := by
    rw [Coordinates.ofBase, h.ofBase?_expectedBase]
  have hreference {b : ModuleBlock} (hb : b.source = some source) :
      b.reference? = some (.published (r.expectedBase s) subpath) := by
    rw [Mode.reference?_of_source hb, hclassify]
  have hleads : s.publishedPrefixes.any (·.isPrefixOf (r.expectedBase s)) := by
    rw [List.any_eq_true]
    exact ⟨lead, hmem, List.isPrefixOf_iff_prefix.mpr hlead⟩
  have hown : (ModuleSource.published (r.expectedBase s) subpath).isOwn (r.expectedBase s) := by
    rw [ModuleSource.isOwn, ModuleSource.base?, beq_self_eq_true, Bool.or_true]
  have hqualifies {b : ModuleBlock} (hb : b.source = some source) :
      (Mode.toTreeOf r s).qualifies b ∧
      (Mode.toRegistryOf r s).qualifies b ∧ (Mode.refreshOf s).qualifies b := by
    refine ⟨?_, ?_, ?_⟩
    · rw [Mode.toTreeOf, Mode.qualifies, hreference hb]
      exact hown
    · rw [Mode.toRegistryOf, Mode.qualifies, hreference hb]
      exact hown
    · rw [Mode.refreshOf, Mode.qualifies, hreference hb]
      exact hleads
  constructor
  · exact hclassify
  · exact ⟨lead, hmem, hlead.trans hstarts⟩
  · exact hofBase
  · intro b hb
    exact hqualifies hb
  · intro b hb
    obtain ⟨-, hregistry, hrefresh⟩ := hqualifies hb
    constructor
    · rw [Mode.asks?, if_pos hregistry]
      rfl
    · have hbase : Mode.baseOf b = r.expectedBase s := by
        rw [Mode.baseOf, hreference hb]
        rfl
      rw [Mode.asks?, if_pos hrefresh, Mode.refreshOf, Mode.target, hbase, hofBase]
      rfl

/-- The source that points at the repository's published module is its own for every mode and
leads to its coordinates; and coordinates that any base gives are given by their text again. -/
theorem isOwnSource_publishedText (hplain : r.IsPlain s)
    (hsub : ∀ t ∈ subpath, IsSubpath t ∧ ∀ c, t.getLast? = some c → ¬ isBlank c) :
    r.IsOwnSource s subpath (publishedText (r.expectedBase s) subpath) ∧
      ∀ (defaultHost base : Text) (c : Coordinates), '/' ∉ defaultHost →
        Coordinates.ofBase defaultHost base = .ok c →
          ∀ otherHost, Coordinates.ofBase otherHost c.text = .ok c := by
  constructor
  · apply isOwnSource_of_classify hplain
    · exact ModuleSource.classify_publishedText hplain.isAddress_expectedBase hsub
    · exact prefix_publishedText _ _
  · intro defaultHost base c hdefault hc otherHost
    have hread : Coordinates.ofBase? defaultHost base = some c := by
      rw [Coordinates.ofBase] at hc
      split at hc
      · next hsome => rw [hsome, Except.ok.inj hc]
      · cases hc
    rw [Coordinates.ofBase, Coordinates.ofBase?_text_of_ofBase? hdefault hread]

theorem isOwnSource_publishedText_privateOwner :
    let r : Repository := ⟨"azure", "vnet"⟩
    let s : RegistrySettings := ⟨"acme", "https://tf.corp:8443/", some " platform "⟩
    let subpath : Option Text := some "modules//net"
    r.IsPlain s ∧ (∀ t ∈ subpath, IsSubpath t ∧ ∀ c, t.getLast? = some c → ¬ isBlank c) ∧
      r.IsOwnSource s subpath "tf.corp:8443/platform/vnet/azure//modules//net".toList ∧
      '/' ∉ " tf.corp ".toList ∧
      Coordinates.ofBase " tf.corp " "/acme/vnet/azure/"
        = .ok ⟨"tf.corp", "acme", "vnet", "azure"⟩ ∧
      Coordinates.ofBase Host.default "tf.corp/acme/vnet/azure"
        = .ok ⟨"tf.corp", "acme", "vnet", "azure"⟩ := by
  intro r s subpath
  have hplain : r.IsPlain s := ⟨by decide, by decide, by decide, by decide⟩
  have hsub : ∀ t ∈ subpath, IsSubpath t ∧ ∀ c, t.getLast? = some c → ¬ isBlank c := by
    intro t ht
    obtain rfl : "modules//net".toList = t := Option.some.inj ht
    have hlast : "modules//net".toList.getLast? = some 't' := by decide
    refine ⟨⟨by decide, by decide, by decide⟩, ?_⟩
    intro c hc
    rw [hlast] at hc
    obtain rfl := Option.some.inj hc
    decide
  obtain ⟨hown, hagain⟩ := isOwnSource_publishedText hplain hsub
  have hslash : '/' ∉ " tf.corp ".toList := by decide
  have hread : Coordinates.ofBase " tf.corp " "/acme/vnet/azure/"
      = .ok ⟨"tf.corp", "acme", "vnet", "azure"⟩ := by decide
  have hsource : publishedText (r.expectedBase s) subpath
      = "tf.corp:8443/platform/vnet/azure//modules//net".toList := by decide
  rw [hsource] at hown
  exact ⟨hplain, hsub, hown, hslash, hread, hagain _ _ _ hslash hread Host.default⟩

end Repository

end SourceSwitch
