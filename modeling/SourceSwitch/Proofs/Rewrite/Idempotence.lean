import SourceSwitch.Proofs.Block.Rereading
import SourceSwitch.Proofs.Rewrite.Locality

namespace SourceSwitch

open Text (Ending Fits endsLine)

namespace Mode

/-- What the mode writes into sources can stand between quotes and is not taken for a place in the
tree. -/
def IsWritten (mode : Mode) : Prop :=
  ∀ t ∈ mode.written, '"' ∉ t ∧ '\n' ∉ t ∧ ¬ (ModuleSource.classify t).isInTree

instance : DecidablePred IsWritten := fun mode => inferInstanceAs (Decidable
  (∀ t ∈ mode.written, '"' ∉ t ∧ '\n' ∉ t ∧ ¬ (ModuleSource.classify t).isInTree))

/-- The sub-path of a published source does not end in a blank. -/
def KeepsSubpath (mode : Mode) (b : ModuleBlock) : Prop :=
  mode.written ≠ [] → ∀ t ∈ b.reference?.bind (·.subpath), ¬ t.getLast?.any Text.isBlank

instance (mode : Mode) : DecidablePred mode.KeepsSubpath := fun b => inferInstanceAs (Decidable
  (mode.written ≠ [] → ∀ t ∈ b.reference?.bind (·.subpath), ¬ t.getLast?.any Text.isBlank))

variable {mode : Mode} {b b' : ModuleBlock} {reply : Coordinates → Reply}

theorem newSource_toTree_again {base : Text}
    (href : b'.reference? = some (ModuleSource.classify ((toTree base).newSource b))) :
    (toTree base).newSource b' = (toTree base).newSource b := by
  rw [newSource, href, classify_newSource_toTree]
  rfl

theorem newSource_toRegistry_again {base : Text} {c : Coordinates}
    (hbase : ¬ (ModuleSource.classify base).isInTree) (hsub : (toRegistry base c).KeepsSubpath b)
    (href : b'.reference? = some (ModuleSource.classify ((toRegistry base c).newSource b)))
    (hq : (toRegistry base c).qualifies b') :
    (toRegistry base c).newSource b' = (toRegistry base c).newSource b := by
  have hsubpath : ∀ t ∈ b.reference?.bind (·.subpath), ModuleSource.IsSubpath t ∧
      ∀ c, t.getLast? = some c → ¬ Text.isBlank c := by
    intro t ht
    have hlast := hsub (List.cons_ne_nil _ _) t ht
    exact ⟨isSubpath_of_reference? ht, fun c hc => by simpa [hc] using hlast⟩
  have hnot := ModuleSource.not_isInTree_publishedText hbase fun t ht =>
    ⟨(hsubpath t ht).1.ne_nil, (hsubpath t ht).2⟩
  rw [qualifies, href, Option.all_some, ModuleSource.isOwn, Bool.or_eq_true] at hq
  have hbase? := beq_iff_eq.mp (hq.resolve_left hnot)
  have hread := ModuleSource.subpath_publishedText hsubpath hbase?
  rw [newSource, href]
  exact congrArg (ModuleSource.publishedText base) hread

/-- A mode that applies again to a source that it has written writes it again. -/
theorem decision_again (hmode : mode.IsWritten) (hsub : mode.KeepsSubpath b)
    (hq : mode.qualifies b) (hsource : b'.source = some (mode.newSource b))
    (hq' : mode.qualifies b') :
    mode.newSource b' = mode.newSource b ∧ mode.target b' = mode.target b := by
  have href := reference?_of_source hsource
  cases mode with
  | toTree base => exact ⟨newSource_toTree_again href, rfl⟩
  | toRegistry base c =>
    obtain ⟨-, -, hbase⟩ := hmode base List.mem_cons_self
    exact ⟨newSource_toRegistry_again hbase hsub href hq', rfl⟩
  | refresh leads defaultHost =>
    have hsource' : b'.source = b.source := by
      rw [hsource, newSource]
      cases h : b.source with
      | none =>
        rw [qualifies, ModuleBlock.reference?, h] at hq
        cases hq
      | some t => rfl
    exact (decision_congr _ hsource').2

end Mode

namespace Span

variable {s : Span} {mode : Mode} {reply : Coordinates → Reply}

/-- What is written for a settled declaration is a declaration with the same carry, and stays. -/
theorem exists_isFixed (hmode : mode.IsWritten) (hs : s.IsComplete) (number : Nat)
    (h : (mode.replacement? reply (s.block number)).isSome →
      s.IsSettled ∧ mode.KeepsSubpath (s.block number)) : ∃ s' : Span, s'.IsComplete ∧
      s'.carry = s.carry ∧ (mode.replacement? reply (s.block number)).getD s.lines = s'.lines ∧
      s'.IsFixed mode reply := by
  cases hnew : mode.replacement? reply (s.block number) with
  | none =>
    refine ⟨s, hs, rfl, rfl, fun m ls hls => ?_⟩
    rw [replacement?_block_eq m number, hnew] at hls
    cases hls
  | some ls =>
    rw [hnew] at h
    obtain ⟨hsettled, hsubpath⟩ := h rfl
    obtain ⟨hq, version, hversion, rfl, hquote, hquote'⟩ :=
      exists_of_replacement? (fun t ht => (hmode t ht).1) hnew
    have hwritable : (s.block number).IsWritable (mode.newSource (s.block number)) version :=
      ⟨isRegular_block hs hsettled number, hquote, hquote'⟩
    refine ⟨_, ModuleBlock.isComplete_rewritten hwritable,
      carry_rewritten hs hsettled.depth_eq hwritable, rfl, fun m ls hls => ?_⟩
    obtain ⟨hq', version', hversion', rfl⟩ := Mode.replacement?_eq_some_iff.mp hls
    have hsource := congrArg ModuleBlock.source (ModuleBlock.block_rewritten hwritable m)
    obtain ⟨hnewSource, htarget⟩ := Mode.decision_again hmode hsubpath hq hsource hq'
    rw [Mode.newVersion_congr htarget, hversion] at hversion'
    obtain rfl := Except.ok.inj hversion'
    rw [hnewSource, ModuleBlock.render_rewritten hwritable, ModuleBlock.lines_rewritten]

end Span

section Splits

variable {mode : Mode} {reply : Coordinates → Reply} {carry : Bracket.Carry} {lines : List Text}
  {ps : List Piece}

theorem Splits.exists_isFixed (hmode : mode.IsWritten) (hps : Splits .code lines ps)
    (hblocks : ∀ b ∈ readBlocks lines, (mode.replacement? reply b).isSome →
      (b.span lines).IsSettled ∧ mode.KeepsSubpath b) {s : Span} (hs : .block s ∈ ps)
    (number : Nat) : ∃ s' : Span, s'.IsComplete ∧ s'.carry = s.carry ∧
      (mode.replacement? reply (s.block number)).getD s.lines = s'.lines ∧
      s'.IsFixed mode reply := by
  obtain ⟨v, w, hlines, hblock⟩ := exists_block_of_mem hs 1
  rw [← hps.readBlocks_eq] at hblock
  rw [hps.lines_eq] at hlines
  apply Span.exists_isFixed hmode (hps.isComplete hs) number
  intro hsome
  rw [Span.replacement?_block_eq number (1 + v.length)] at hsome
  obtain ⟨hsettled, hsubpath⟩ := hblocks _ hblock hsome
  rw [hlines, Span.span_block] at hsettled
  refine ⟨hsettled, ?_⟩
  rwa [Mode.KeepsSubpath, ModuleBlock.reference?, s.source_block_eq number (1 + v.length)]

end Splits

/-- If what a mode writes can be read back, and the declarations that it replaces are settled, then
a second rewriting changes nothing. -/
theorem transform_transform {σ : Type} {ask : Lookup σ} {reply : Coordinates → Reply}
    (hask : ask.IsConstant reply) {mode : Mode} (hmode : mode.IsWritten) {content : Text}
    (hblocks : ∀ b ∈ readBlocks (Text.lines content), (mode.replacement? reply b).isSome →
      (b.span (Text.lines content)).IsSettled ∧ mode.KeepsSubpath b) (state : σ) :
    let once := transform ask mode content state
    let again := transform ask mode once.1.content once.2
    again.1.changed = false ∧ again.1.content = once.1.content := by
  intro once again
  obtain ⟨ps, hps⟩ := exists_splits .code (Text.lines content)
  obtain ⟨ps', hps', hrelated⟩ :=
    hps.exists_related (fun s hs number => hps.exists_isFixed hmode hblocks hs number) 1
  have hfixed : ∀ s', .block s' ∈ ps' → s'.IsFixed mode reply := by
    intro s' hs'
    obtain ⟨-, hs'⟩ := Piece.exists_of_related hrelated hs'
    exact hs'
  have hending := endingOf_ne_none content
  have hfits : Fits (endingOf content) (endsLine content)
      (Piece.replaced (mode.replacement? reply) 1 ps) :=
    fits_transform (fun t ht => (hmode t ht).2.1) hps
  have honce := content_transform mode hask state hps
  have hlines : Text.lines once.1.content = Piece.replaced (mode.replacement? reply) 1 ps := by
    rw [← lines_joinLines hending hfits, ← honce]
  rw [← hlines] at hps'
  refine ⟨(changed_transform_eq_false_iff hask once.2 hps').mpr hfixed, ?_⟩
  have hagain := content_transform mode hask once.2 hps'
  rw [Piece.replaced_of_isFixed hfixed, hps'.lines_eq, ← chosenEnding_eq] at hagain
  exact hagain.trans (joinLines_lines hending hfits honce)

def oneRelease : Coordinates → Answer := fun _ => .ok ⟨"1.2.3", 1⟩

def settledContent : Text :=
  joinLines "\r\n" false [r#"module "vnet" {"#, "\tversion = \"~> 1.0\" # pinned",
    r#"source = "acme/vnet/azure//modules/a""#, "", "  note = <<EOT", r" }", "EOT",
    r"  tags = { a = 1 } } // end", r#"output "x" {}"#]

def vnetMode : Mode :=
  .toRegistry "acme/vnet/azure" ⟨"registry.terraform.io", "acme", "vnet", "azure"⟩

theorem transform_transform_settledContent :
    let ask := Lookup.fixed oneRelease
    let reply := fun c => ⟨oneRelease c, []⟩
    let once := transform ask vnetMode settledContent ()
    let again := transform ask vnetMode once.1.content once.2
    ask.IsConstant reply ∧ vnetMode.IsWritten ∧
      (∀ b ∈ readBlocks (Text.lines settledContent), (vnetMode.replacement? reply b).isSome →
        (b.span (Text.lines settledContent)).IsSettled ∧ vnetMode.KeepsSubpath b) ∧
      once.1.changed ∧ again.1.changed = false ∧ again.1.content = once.1.content := by
  have hmode : vnetMode.IsWritten := by decide
  have hblocks : ∀ b ∈ readBlocks (Text.lines settledContent),
      (vnetMode.replacement? (fun c => ⟨oneRelease c, []⟩) b).isSome →
      (b.span (Text.lines settledContent)).IsSettled ∧ vnetMode.KeepsSubpath b := by
    decide +kernel
  exact ⟨Lookup.isConstant_fixed _, hmode, hblocks, by decide +kernel,
    transform_transform (Lookup.isConstant_fixed _) hmode hblocks ()⟩

structure Project where
  settings : RegistrySettings
  repository : Text
  content : Text

namespace Project

def ofLines (lines : List Text) : Project :=
  ⟨⟨"acme", [], none⟩, "terraform-azure-vnet", joinLines "\n" true lines⟩

def rewritings (mode : Repository → RegistrySettings → Mode) (p : Project) :
    Option (Transformation × Transformation) :=
  if Settings.fault? ⟨p.settings, "main.tf", 1⟩ = none then
    (Repository.ofName? p.repository).map fun r =>
      let once := transform (.fixed oneRelease) (mode r p.settings) p.content ()
      (once.1, (transform (.fixed oneRelease) (mode r p.settings) once.1.content once.2).1)
  else none

/-- A valid project whose file is changed by each of two rewritings. -/
def ChangesTwice (mode : Repository → RegistrySettings → Mode) (p : Project) : Prop :=
  (p.rewritings mode).any fun t => t.1.changed && t.2.changed

instance (mode : Repository → RegistrySettings → Mode) : DecidablePred (ChangesTwice mode) :=
  fun p => inferInstanceAs (Decidable ((p.rewritings mode).any _ = true))

/-- What is kept of an attribute is an attribute, opens a bracket, or no longer opens a
here-document; what stands in front of the closing bracket opens one. -/
def unsettled : List Project :=
  [ofLines [r#"module "v" {"#, r#"  source = "acme/vnet/azure" # source = "../../""#, r"}"],
    ofLines [r#"module "v" {"#, r#"  source = "acme/vnet/azure" {"#, "  a = 1", r"  }", r"}"],
    ofLines [r#"module "v" {"#, r#"  source = "acme/vnet/azure" <<EOF"#, r"}", "EOF", r"}"],
    ofLines [r#"module "v" {"#, r#"  source = "acme/vnet/azure""#, r"  x = <<EOF }", "EOF",
      r"   }"]]

/-- The header's bracket is not counted, the sub-path ends in a blank, or the published base has a
quote or a line break or is in the tree. -/
def unwritable : List Project :=
  [ofLines [r#"module "a\" {"#, r#"  source = "../../""#, r"}"],
    ofLines [r#"module "v" {"#, r#"  source = "../../x /""#, r"}"],
    { ofLines [r#"module "v" {"#, r#"  source = "../../""#, r"}"] with
      settings := ⟨r#"../../sub""#, [], none⟩ },
    { ofLines [r#"module "v" {"#, r#"  source = "../../""#, r"}"] with
      settings := ⟨"ac\nme", [], none⟩ },
    { ofLines [r#"module "v" {"#, r#"  source = "../../a/b""#, r"}"] with
      settings := ⟨"..", [], none⟩, repository := "terraform-azure-.." }]

end Project

theorem exists_changesTwice : (∀ p ∈ Project.unsettled, p.ChangesTwice Mode.toTreeOf) ∧
    ∀ p ∈ Project.unwritable, p.ChangesTwice Mode.toRegistryOf := by
  constructor <;> decide +kernel

end SourceSwitch
