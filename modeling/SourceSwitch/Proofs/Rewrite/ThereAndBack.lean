import SourceSwitch.Proofs.Repository
import SourceSwitch.Proofs.Rewrite.Unchanged

namespace SourceSwitch

open Text (Ending Fits IsUniform endsLine isBlank)
open ModuleSource (IsAddress classify classify_publishedText)

namespace Mode

/-- What `there` writes into a declaration that `back` leaves as it is, `back` takes out again. -/
structure Undoes (back there : Mode) (reply : Coordinates → Reply) (b : ModuleBlock) : Prop where
  applies : (there.replacement? reply b).isSome → (back.replacement? reply b).isSome
  again : back.qualifies b → b.source = some (back.newSource b) → ∀ b' : ModuleBlock,
    b'.source = some (there.newSource b) → back.qualifies b' ∧
      back.newSource b' = back.newSource b ∧ back.target b' = back.target b

variable {reply : Coordinates → Reply} {base : Text} {c : Coordinates} {b : ModuleBlock}

theorem classify_newSource_toRegistry (hbase : IsAddress base)
    (hblank : ∀ t ∈ b.reference?.bind (·.subpath), ∀ c ∈ t, ¬ isBlank c) :
    classify ((toRegistry base c).newSource b)
      = .published base (b.reference?.bind (·.subpath)) := by
  apply classify_publishedText hbase
  intro t ht
  constructor
  · exact isSubpath_of_reference? ht
  · intro c hc
    exact hblank t ht c (List.mem_of_getLast? hc)

theorem undoes_toTree (hbase : IsAddress base) {t : Text} (hsource : b.source = some t)
    (hlocal : (classify t).isInTree → ∀ c ∈ t, ¬ isBlank c) :
    (toTree base).Undoes (toRegistry base c) reply b := by
  have href := reference?_of_source hsource
  constructor
  · intro h
    have hq := qualifies_of_isSome h
    rw [qualifies, href] at hq
    apply isSome_replacement?
    · rw [qualifies, href]
      exact hq
    · exact ⟨none, rfl⟩
  · intro hq hwritten b' hsource'
    -- The source that is read is the one that would be written, so it lies in the tree.
    rw [hsource] at hwritten
    have htree : (classify t).isInTree := by
      rw [Option.some.inj hwritten, classify_newSource_toTree]
      rfl
    have href' := reference?_of_source hsource'
    rw [classify_newSource_toRegistry hbase] at href'
    · refine ⟨?_, ?_, rfl⟩
      · rw [qualifies, href']
        simp [ModuleSource.isOwn, ModuleSource.base?]
      · rw [newSource, href']
        rfl
    · intro u hu c hc
      rw [href] at hu
      exact hlocal htree c (ModuleSource.mem_of_mem_subpath hu hc)

theorem undoes_toRegistry (hreply : ∃ k, (reply c).answer.constraint = .ok k) :
    (toRegistry base c).Undoes (toTree base) reply b := by
  obtain ⟨k, hk⟩ := hreply
  constructor
  · intro h
    have hq := qualifies_of_isSome h
    apply isSome_replacement?
    · rw [qualifies] at hq
      rw [qualifies]
      cases href : b.reference? with
      | none => rfl
      | some m =>
        rw [href] at hq
        exact hq
    · refine ⟨some k.text, ?_⟩
      rw [newVersion, target]
      simp only [hk]
      rfl
  · intro _ _ b' hsource'
    have href' := reference?_of_source hsource'
    rw [classify_newSource_toTree] at href'
    refine ⟨?_, ?_, rfl⟩
    · rw [qualifies, href']
      rfl
    · rw [newSource, href']
      rfl

end Mode

namespace Span

/-- Wherever it stands, the mode makes another span of it. -/
def ReturnsTo (mode : Mode) (reply : Coordinates → Reply) (s s' : Span) : Prop :=
  ∀ number, (mode.replacement? reply (s.block number)).getD s.lines = s'.lines

variable {s : Span} {back there : Mode} {reply : Coordinates → Reply}

theorem exists_returnsTo (hthere : ∀ t ∈ there.written, '"' ∉ t)
    (hback : ∀ t ∈ back.written, '"' ∉ t) (hs : s.IsComplete)
    (hfixed : s.IsFixed back reply) (number : Nat)
    (hundoes : back.Undoes there reply (s.block number)) : ∃ s' : Span, s'.IsComplete ∧
      s'.carry = s.carry ∧ (there.replacement? reply (s.block number)).getD s.lines = s'.lines ∧
      s'.ReturnsTo back reply s := by
  cases haway : there.replacement? reply (s.block number) with
  | none =>
    refine ⟨s, hs, rfl, rfl, ?_⟩
    intro m
    cases hnew : back.replacement? reply (s.block m) with
    | none => rfl
    | some ls => exact hfixed m ls hnew
  | some away =>
    have happlies := hundoes.applies (Option.isSome_of_eq_some haway)
    obtain ⟨ls, hls⟩ := Option.isSome_iff_exists.mp happlies
    -- What `back` writes are the declaration's own lines, so nothing is hidden in it.
    obtain rfl := hfixed number ls hls
    obtain ⟨hdepth, -⟩ := lines_eq_of_replacement? hback hs .nil hls (m := 0) rfl
    obtain ⟨hq, version, hversion, hlines, hquote, hquote'⟩ := exists_of_replacement? hback hls
    obtain ⟨hregular, hsource⟩ := isRegular_of_lines_eq hs hdepth hquote hquote' hlines
    obtain ⟨-, version', -, rfl, hthere, hthere'⟩ := exists_of_replacement? hthere haway
    have hwritable : (s.block number).IsWritable (there.newSource (s.block number)) version' :=
      ⟨hregular, hthere, hthere'⟩
    refine ⟨_, ModuleBlock.isComplete_rewritten hwritable, carry_rewritten hs hdepth hwritable,
      rfl, ?_⟩
    intro m
    have hread := congrArg ModuleBlock.source (ModuleBlock.block_rewritten hwritable m)
    obtain ⟨hq', hnew, htarget⟩ := hundoes.again hq hsource _ hread
    rw [← Mode.newVersion_congr htarget] at hversion
    rw [Mode.replacement?_eq_some_iff.mpr ⟨hq', version, hversion, rfl⟩, Option.getD_some, hnew,
      ModuleBlock.render_rewritten hwritable, hlines]

end Span

theorem Piece.replaced_of_related {mode : Mode} {reply : Coordinates → Reply} {ps ps' : List Piece}
    (h : List.Forall₂ (Related fun s s' => s'.ReturnsTo mode reply s) ps ps') (number : Nat) :
    replaced (mode.replacement? reply) number ps' = ps.flatMap Piece.lines := by
  induction h generalizing number with
  | nil => rfl
  | cons hp _ ih =>
    rw [List.flatMap_cons]
    cases hp with
    | line l => exact congrArg (l :: ·) (ih _)
    | block hs => rw [replaced, hs, ih, Piece.lines]

section Transform

variable {σ : Type} {ask : Lookup σ} {reply : Coordinates → Reply} {content : Text} {e : Ending}

def thereAndBack (ask : Lookup σ) (there back : Mode) (content : Text) (state : σ) : Text :=
  let away := transform ask there content state
  (transform ask back away.1.content away.2).1.content

/-- A content that `back` leaves as it is comes back from `there` if each declaration does. -/
theorem thereAndBack_of_undoes {there back : Mode} (hask : ask.IsConstant reply)
    (hthere : ∀ t ∈ there.written, '"' ∉ t ∧ '\n' ∉ t)
    (hback : ∀ t ∈ back.written, '"' ∉ t ∧ '\n' ∉ t) (he : e ≠ .none)
    (huniform : IsUniform e content) {ps : List Piece} (hps : Splits .code (Text.lines content) ps)
    (hundoes : ∀ s, .block s ∈ ps → ∀ number, back.Undoes there reply (s.block number)) (state : σ)
    (hkept : (transform ask back content state).1.content = content) :
    thereAndBack ask there back content state = content := by
  have hfixed := (content_transform_eq_iff hask hback he huniform hps state).mp hkept
  obtain ⟨ps', hps', hrelated⟩ := hps.exists_related (fun s hs number =>
    Span.exists_returnsTo (fun t ht => (hthere t ht).1) (fun t ht => (hback t ht).1)
      (hps.isComplete hs) (hfixed s hs) number (hundoes s hs number)) 1
  have hfits : Fits e (endsLine content) (Piece.replaced (there.replacement? reply) 1 ps) :=
    fits_replaced_lines (fun t ht => (hthere t ht).2) hps (fits_of_isUniform huniform)
  have haway : (transform ask there content state).1.content
      = joinLines e.text (endsLine content) (Piece.replaced (there.replacement? reply) 1 ps) :=
    content_transform_of_isUniform hask he huniform hps state
  rw [thereAndBack]
  simp only [haway]
  rw [← lines_joinLines he hfits] at hps'
  rw [content_transform_of_isUniform hask he (isUniform_joinLines he hfits) hps',
    endsLine_joinLines he hfits, Piece.replaced_of_related hrelated, hps.lines_eq]
  exact joinLines_lines_of_isUniform huniform

theorem written_toRegistryOf {r : Repository} {s : RegistrySettings} (h : r.IsPlain s) :
    ∀ t ∈ (Mode.toRegistryOf r s).written, '"' ∉ t ∧ '\n' ∉ t := by
  intro t ht
  obtain rfl := List.mem_singleton.mp ht
  constructor
  · exact h.not_mem_expectedBase (by decide)
  · exact h.not_mem_expectedBase (by decide)

/-- For plain names and a registry that resolves the module, what points at the tree comes back from
the published form, and what points at the published form comes back from the tree. -/
theorem thereAndBack_eq {r : Repository} {s : RegistrySettings} (hask : ask.IsConstant reply)
    (hplain : r.IsPlain s) (hreply : ∃ k, (reply (r.coordinates s)).answer.constraint = .ok k)
    (he : e ≠ .none) (huniform : IsUniform e content) (state : σ) :
    ((transform ask (.toTreeOf r s) content state).1.content = content →
      (∀ b ∈ readBlocks (Text.lines content), ∃ t ∈ b.source,
        (classify t).isInTree → ∀ c ∈ t, ¬ isBlank c) →
      thereAndBack ask (.toRegistryOf r s) (.toTreeOf r s) content state = content) ∧
    ((transform ask (.toRegistryOf r s) content state).1.content = content →
      thereAndBack ask (.toTreeOf r s) (.toRegistryOf r s) content state = content) := by
  have htree : ∀ t ∈ (Mode.toTreeOf r s).written, '"' ∉ t ∧ '\n' ∉ t := nofun
  have hregistry := written_toRegistryOf hplain
  obtain ⟨ps, hps⟩ := exists_splits .code (Text.lines content)
  constructor
  · intro hkept hblocks
    apply thereAndBack_of_undoes hask hregistry htree he huniform hps _ state hkept
    intro s' hs' number
    obtain ⟨t, hsource, hlocal⟩ := hps.source_block (P := fun source => ∃ t ∈ source,
      (classify t).isInTree → ∀ c ∈ t, ¬ isBlank c) hblocks hs' number
    exact Mode.undoes_toTree hplain.isAddress_expectedBase hsource hlocal
  · intro hkept
    apply thereAndBack_of_undoes hask htree hregistry he huniform hps _ state hkept
    intro s' _ number
    exact Mode.undoes_toRegistry hreply

end Transform

def corpSettings : RegistrySettings := ⟨"acme", "https://tf.corp:8443/", none⟩

def treeContent : Text :=
  joinLines "\r\n" false [r#"module "vnet" {"#, r#"  source  = "../../modules/a/""#, "",
    "  note = <<EOT", r" }", "EOT", r"} // end", r#"module "dns" {"#, r#"source="acme/dns/azure""#,
    r"}"]

def registryContent : Text :=
  joinLines "\n" true [r#"  module "vnet" {"#, r#"    source  = "tf.corp:8443/acme/vnet/azure""#,
    r#"    version = "~> 2.0""#, "", r"    tags = {", "      a = 1 # one", r"    }", r"  }"]

theorem thereAndBack_eq_corpSettings :
    let r : Repository := ⟨"azure", "vnet"⟩
    let ask := Lookup.constant vnetOnly
    (ask.IsConstant vnetOnly ∧ r.IsPlain corpSettings ∧
      (vnetOnly (r.coordinates corpSettings)).answer.constraint = .ok ⟨2, 0⟩) ∧
    (IsUniform .crlf treeContent ∧
      (transform ask (.toTreeOf r corpSettings) treeContent ()).1.content = treeContent ∧
      (transform ask (.toRegistryOf r corpSettings) treeContent ()).1.changed ∧
      thereAndBack ask (.toRegistryOf r corpSettings) (.toTreeOf r corpSettings) treeContent ()
        = treeContent) ∧
    (IsUniform .lf registryContent ∧
      (transform ask (.toRegistryOf r corpSettings) registryContent ()).1.content
        = registryContent ∧
      (transform ask (.toTreeOf r corpSettings) registryContent ()).1.changed ∧
      thereAndBack ask (.toTreeOf r corpSettings) (.toRegistryOf r corpSettings) registryContent ()
        = registryContent) := by
  intro r ask
  have hask : ask.IsConstant vnetOnly := Lookup.isConstant_constant vnetOnly
  have hplain : r.IsPlain corpSettings := ⟨by decide, by decide, by decide, by decide⟩
  have hreply : (vnetOnly (r.coordinates corpSettings)).answer.constraint = .ok ⟨2, 0⟩ := by
    decide
  have htree : IsUniform .crlf treeContent := by decide +kernel
  have hregistry : IsUniform .lf registryContent := by decide +kernel
  have hkept : (transform ask (.toTreeOf r corpSettings) treeContent ()).1.content
      = treeContent := by decide +kernel
  have hkept' : (transform ask (.toRegistryOf r corpSettings) registryContent ()).1.content
      = registryContent := by decide +kernel
  have hblocks : ∀ b ∈ readBlocks (Text.lines treeContent), ∃ t ∈ b.source,
      (classify t).isInTree → ∀ c ∈ t, ¬ isBlank c := by decide +kernel
  refine ⟨⟨hask, hplain, hreply⟩, ⟨htree, hkept, by decide +kernel, ?_⟩,
    ⟨hregistry, hkept', by decide +kernel, ?_⟩⟩
  · exact (thereAndBack_eq hask hplain ⟨_, hreply⟩ (by decide) htree ()).1 hkept hblocks
  · exact (thereAndBack_eq hask hplain ⟨_, hreply⟩ (by decide) hregistry ()).2 hkept'

end SourceSwitch
