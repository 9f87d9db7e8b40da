import SourceSwitch.Proofs.Block.Rereading

namespace SourceSwitch

open Text
open SourceSwitch.Bracket (Carry)

theorem Bracket.Carry.isBody_iff {carry : Carry} {d : Int} {ls : List Text} :
    carry.IsBody (d + 1) ls ↔ (∀ e ∈ Entry.ofLines d carry ls, 0 ≤ e.depth + e.carry.net e.line) ∧
      ∀ e ∈ Entry.ofLines d carry ls, e.depth = 0 → e.carry = .code →
        Attribute.ofLine? e.line = none := by
  induction ls generalizing carry d with
  | nil => simp [IsBody, Entry.ofLines]
  | cons l ls ih =>
    have hopen : 0 < d + 1 + carry.net l ↔ 0 ≤ d + carry.net l := by omega
    have hdirect : d + 1 = 1 ↔ d = 0 := by omega
    rw [IsBody, hopen, hdirect, Int.add_right_comm, ih, Entry.ofLines, List.forall_mem_cons,
      List.forall_mem_cons]
    constructor
    · rintro ⟨hl, hplain, hls, hplains⟩
      exact ⟨⟨hl, hls⟩, hplain, hplains⟩
    · rintro ⟨⟨hl, hls⟩, hplain, hplains⟩
      exact ⟨hl, hplain, hls, hplains⟩

theorem Header.ofLine?_append {v : Text} (hv : isBlankText v) (line : Text) :
    Header.ofLine? (v ++ line)
      = (Header.ofLine? line).map fun h => ⟨v ++ h.indent, h.name⟩ := by
  have hindent : (v ++ line).takeWhile isBlank = v ++ line.takeWhile isBlank :=
    List.takeWhile_append_of_pos (isBlankText_iff.mp hv)
  simp only [ofLine?, trimStart_append_blank hv, hindent, Option.bind_eq_bind, Option.map_bind,
    Function.comp_def, Option.map_some]

namespace ModuleBlock

/-- A declaration with a header of its name, a body that keeps to its brackets and holds no
attribute at its own level, and a trailer that opens no bracket. -/
structure IsWellFormed (b : ModuleBlock) : Prop where
  indent : isBlankText b.indent
  header : ∃ line, b.header = b.indent ++ line ∧ Header.ofLine? line = some ⟨[], b.name⟩
  name : '\\' ∉ b.name
  net_nonneg : ∀ e ∈ Entry.ofLines 0 .code b.body, 0 ≤ e.depth + e.carry.net e.line
  plain : ∀ e ∈ Entry.ofLines 0 .code b.body, e.depth = 0 → e.carry = .code →
    Attribute.ofLine? e.line = none
  net_eq : Carry.code.netAll b.body = 0
  next_eq : Carry.code.nextAll b.body = .code
  trailer : ∀ t ∈ b.trailer, t ≠ [] ∧ trim t = t ∧ Carry.code.net t ≤ 0

variable {b : ModuleBlock} {source : Text} {version : Option Text}

theorem IsWellFormed.isRegular (h : b.IsWellFormed) : b.IsRegular := by
  obtain ⟨line, hline, hh⟩ := h.header
  have hheader : Header.ofLine? b.header = some ⟨b.indent, b.name⟩ := by
    rw [hline, Header.ofLine?_append h.indent, hh, Option.map_some, List.append_nil]
  refine ⟨hheader, ?_, ?_, h.net_eq, h.next_eq, h.trailer⟩
  · -- Only a backslash in the name hides the header's bracket.
    exact (Header.net_code_cases hheader).resolve_right fun hnet => h.name hnet.2
  · exact Carry.isBody_iff.mpr ⟨h.net_nonneg, h.plain⟩

theorem readBlocks_lines {s : Span} (h : s.IsComplete) : readBlocks s.lines = [s.block 1] := by
  have hrun := Reader.run_span h 1 []
  rw [List.append_nil] at hrun
  exact congrArg Prod.fst hrun

theorem length_render (source : Text) (version : Option Text) (b : ModuleBlock) :
    (b.render source version).length = 1 + (b.rewritten source version).inner.length + 1 := by
  rw [← lines_rewritten, Span.length_lines]
  omega

/-- What is written for a well-formed declaration is read as this declaration, with the source and
the version that were written. -/
theorem readBlocks_render (h : b.IsWellFormed) (hsource : '"' ∉ source)
    (hversion : ∀ v ∈ version, '"' ∉ v) : readBlocks (b.render source version) = [{ b with
      startLine := 1
      endLine := (b.render source version).length
      source := some source
      commentedSource := none
      version := version
      body := if b.body.all isBlankText then []
        else [] :: Layout.reindent (b.indent ++ Layout.unit) b.body }] := by
  have hwritable : b.IsWritable source version := ⟨h.isRegular, hsource, hversion⟩
  have hbody := paragraph_eq (b.indent ++ Layout.unit) b.body
  simp only [Layout.reindent_eq_nil_iff (isBlankText_inner h.indent)] at hbody
  rw [length_render, ← lines_rewritten, readBlocks_lines (isComplete_rewritten hwritable),
    block_rewritten hwritable, hbody]

def nested : ModuleBlock where
  name := "vnet"
  startLine := 7
  endLine := 7
  indent := "\t"
  header := "\t" ++ r#"module  "vnet"{ "#
  source := none
  commentedSource := some "../../"
  version := some "1.0"
  body := ["", r"tags = {", r#"source = "x""#, "list = [1,", r"/* }",
    r#"version = "2" */ ]"#, r"}", "note = <<-EOT", r"} }", "EOT", "# end"]
  trailer := some r"} // both"

theorem readBlocks_render_nested : nested.IsWellFormed ∧
    readBlocks (nested.render "../../a/" (some "~> 1.0")) = [{ nested with
      startLine := 1
      endLine := 15
      source := some "../../a/"
      commentedSource := none
      version := some "~> 1.0"
      body := ["", "\t" ++ r"  tags = {", "\t    source = \"x\"", "\t    list = [1,",
        "\t" ++ r"      /* }", r#"version = "2" */ ]"#, "\t" ++ r"  }", "\t  note = <<-EOT", r"} }",
        "EOT", "\t  # end"] }] := by
  have hwell : nested.IsWellFormed :=
    ⟨by decide, ⟨r#"module  "vnet"{ "#, by decide, by decide⟩, by decide, by decide, by decide,
      by decide, by decide, by decide⟩
  refine ⟨hwell, (readBlocks_render hwell (by decide) (by decide)).trans ?_⟩
  decide

end ModuleBlock

end SourceSwitch
