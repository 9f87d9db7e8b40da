import SourceSwitch.Proofs.Block.Canonical
import SourceSwitch.Proofs.Rewrite.Locality

namespace SourceSwitch

open Text (Ending IsUniform endsLine isBlank isBlankText)
open SourceSwitch.Bracket (Carry)

def IsPlainLine (l : Text) : Prop := Header.ofLine? l = none ∧ Carry.code.next l = .code

theorem Header.ofLine?_eq_none {v t : Text} {c : Char} (hv : isBlankText v) (hc : ¬ isBlank c)
    (hne : c ≠ 'm') : Header.ofLine? (v ++ c :: t) = none := by
  have hstart : Text.trimStart (v ++ c :: t) = c :: t := by
    rw [Text.trimStart_append_blank hv]
    exact List.dropWhile_cons_of_neg hc
  have hafter : Text.after? "module" (c :: t) = none := by
    change (if 'm' = c then _ else none) = none
    rw [if_neg hne.symm]
  rw [ofLine?, hstart, hafter]
  rfl

section Descent

variable {lines v : List Text} {ps : List Piece}

theorem Splits.exists_of_plain (hv : ∀ l ∈ v, IsPlainLine l) (h : Splits .code (v ++ lines) ps) :
    ∃ ps', ps = v.map .line ++ ps' ∧ Splits .code lines ps' := by
  induction v generalizing ps with
  | nil => exact ⟨ps, rfl, h⟩
  | cons l v ih =>
    obtain ⟨hl, hnext⟩ := hv l List.mem_cons_self
    have hrest := fun l hl => hv l (List.mem_cons_of_mem _ hl)
    have hnone : ¬ (Header.ofLine? l).isSome := by
      rw [hl]
      decide
    generalize hall : l :: v ++ lines = all at h
    cases h with
    | nil => cases hall
    | line _ h =>
      obtain ⟨rfl, rfl⟩ := List.cons.inj hall
      rw [hnext] at h
      obtain ⟨ps', rfl, h'⟩ := ih hrest h
      exact ⟨ps', rfl, h'⟩
    | block hs _ =>
      obtain ⟨rfl, -⟩ := List.cons.inj hall
      exact absurd hs.header_isSome hnone
    | unclosed hs _ =>
      obtain ⟨rfl, -⟩ := List.cons.inj hall
      exact absurd hs hnone

/-- Replacing does not put plain lines in front: it would have to do so again and again. -/
theorem ne_append_replaced (new : ModuleBlock → Option (List Text)) (hne : v ≠ [])
    (hv : ∀ l ∈ v, IsPlainLine l) (h : Splits .code lines ps) (number : Nat) :
    lines ≠ v ++ Piece.replaced new number ps := by
  induction hn : lines.length using Nat.strongRecOn generalizing lines ps number with
  | _ n ih =>
    subst hn
    intro hlines
    rw [hlines] at h
    obtain ⟨ps', hps, h'⟩ := h.exists_of_plain hv
    have hagain : Piece.replaced new number ps
        = v ++ Piece.replaced new
          (number + ((v.map Piece.line).flatMap Piece.lines).length) ps' := by
      conv_lhs => rw [hps]
      rw [Piece.replaced_append, Piece.replaced_map_line]
    have hlength := congrArg List.length hlines
    rw [List.length_append] at hlength
    have hpos := List.length_pos_iff.mpr hne
    -- The lines behind `v` are of the same form again, and there are fewer of them.
    exact ih _ (by omega) h' _ rfl hagain

end Descent

namespace Span

variable {s : Span} {number : Nat} {source : Text} {version : Option Text}

theorem block_of_inner_eq_nil (hinner : s.inner = [])
    (hp : Attribute.IsPattern "source" source s.last) (number : Nat) :
    s.carry = .code ∧ (s.block number).body = [] ∧ (s.block number).trailer = none := by
  have hclosing : s.closing = ⟨s.depth, .code, s.last⟩ := by
    rw [closing, hinner, Carry.netAll, Int.add_zero]
    rfl
  have hnone : s.closing.tally.closedAt = none := by
    rw [hclosing]
    exact Attribute.closedAt_pattern Attribute.isKey_source hp s.depth
  have hintakes : s.intakes = [] := by
    rw [intakes, entries, hinner, Entry.codeIntakes_of_closedAt_eq_none hnone]
    rfl
  refine ⟨?_, ?_, ?_⟩
  · rw [carry, hclosing]
    exact (Attribute.scan_pattern Attribute.isKey_source hp).2.1
  · rw [body_block, hintakes]
    rfl
  · rw [trailer_block, Entry.rest_of_closedAt_eq_none hnone]
    rfl

theorem isPlainLine_of_mem_version (hversion : ∀ v ∈ version, '"' ∉ v) {l : Text}
    (hl : l ∈ (version.map fun v => (s.block number).indent ++ Layout.unit
      ++ Layout.assignment "version" v).toList) : IsPlainLine l := by
  have hindent := ModuleBlock.isBlankText_indent_block number s
  obtain ⟨v, hv, rfl⟩ := Option.map_eq_some_iff.mp (Option.mem_toList.mp hl)
  have hp := ModuleBlock.isPattern_version hindent (hversion v hv)
  exact ⟨Header.ofLine?_eq_none (ModuleBlock.isBlankText_inner hindent) (by decide) (by decide),
    (Attribute.scan_pattern Attribute.isKey_version hp).2.1⟩

theorem isPlainLine_footer (htrailer : (s.block number).trailer = none) :
    IsPlainLine (s.block number).footer := by
  have hindent := ModuleBlock.isBlankText_indent_block number s
  have hcut := ModuleBlock.cut_footer hindent
  constructor
  · rw [ModuleBlock.footer_eq]
    exact Header.ofLine?_eq_none hindent (by decide) (by decide)
  · rw [hcut.next_eq, ModuleBlock.tail, htrailer]
    rfl

/-- A declaration whose header's bracket does not count ends on the next line if that is the source
which is written; then plain lines are put behind it. -/
theorem exists_of_depth_eq_zero (hs : s.IsComplete) (hdepth : s.depth = 0) (hsource : '"' ∉ source)
    (hversion : ∀ v ∈ version, '"' ∉ v) {v w : List Text}
    (h : s.lines ++ v = (s.block number).render source version ++ w) :
    s.carry = .code ∧ ∃ ls, ls ≠ [] ∧ (∀ l ∈ ls, IsPlainLine l) ∧ v = ls ++ w := by
  have hp := ModuleBlock.isPattern_source (ModuleBlock.isBlankText_indent_block number s) hsource
  rw [lines, ModuleBlock.render_eq_cons, ModuleBlock.settings, List.cons_append, List.cons_append,
    List.cons_append, List.cons_append, List.cons_append, List.append_assoc] at h
  replace h := (List.cons.inj h).2
  rcases hinner : s.inner with _ | ⟨l, inner⟩ <;> rw [hinner] at h
  · -- The source that is written is the line that closes the declaration.
    obtain ⟨hlast, hv⟩ := List.cons.inj h
    rw [← hlast] at hp
    obtain ⟨hcarry, hbody, htrailer⟩ := block_of_inner_eq_nil hinner hp number
    refine ⟨hcarry, _, ?_, ?_, hv⟩
    · simp
    · rw [hbody, ModuleBlock.paragraph_nil, List.append_nil]
      intro l hl
      rcases List.mem_append.mp hl with hl | hl
      · exact isPlainLine_of_mem_version hversion hl
      · obtain rfl := List.mem_singleton.mp hl
        exact isPlainLine_footer htrailer
  · -- Behind the source that is written the depth would still be zero.
    obtain ⟨hl, -⟩ := List.cons.inj h
    have hopen := hs.staysOpen
    rw [hinner, hdepth, hl] at hopen
    have hnet := (Attribute.scan_pattern Attribute.isKey_source hp).1
    have hpos := hopen.1
    omega

end Span

variable {σ : Type} {ask : Lookup σ} {reply : Coordinates → Reply} {mode : Mode} {carry : Carry}
  {lines : List Text} {ps : List Piece}

/-- What takes the place of a declaration starts with its own lines only if it is these lines. -/
theorem lines_eq_of_replacement? (hmode : ∀ t ∈ mode.written, '"' ∉ t) {s : Span}
    (hs : s.IsComplete)
    (hps : Splits s.carry lines ps) {number m : Nat} {ls : List Text}
    (hnew : mode.replacement? reply (s.block number) = some ls)
    (h : s.lines ++ lines = ls ++ Piece.replaced (mode.replacement? reply) m ps) :
    s.depth = 1 ∧ s.lines = ls := by
  obtain ⟨-, version, -, rfl, hsource, hversion⟩ := Span.exists_of_replacement? hmode hnew
  obtain ⟨hd, hhd⟩ := Option.isSome_iff_exists.mp hs.header_isSome
  rcases Header.net_code_cases hhd with hdepth | ⟨hdepth, -⟩
  · exact ⟨hdepth, Span.lines_eq_of_append_eq hs hdepth hsource hversion h⟩
  · obtain ⟨hcarry, ls, hne, hplain, hlines⟩ :=
      Span.exists_of_depth_eq_zero hs hdepth hsource hversion h
    rw [hcarry] at hps
    exact absurd hlines (ne_append_replaced _ hne hplain hps m)

theorem Splits.isFixed_of_replaced_eq (hmode : ∀ t ∈ mode.written, '"' ∉ t)
    (hps : Splits carry lines ps) {number : Nat}
    (h : Piece.replaced (mode.replacement? reply) number ps = lines) :
    ∀ s, .block s ∈ ps → s.IsFixed mode reply := by
  induction hps generalizing number with
  | nil => exact fun s hs => absurd hs List.not_mem_nil
  | line _ _ ih =>
    intro s hs
    exact ih (List.cons.inj h).2 s ((List.mem_cons.mp hs).resolve_left nofun)
  | @block s lines ps hs hps ih =>
    have hlines : (mode.replacement? reply (s.block number)).getD s.lines = s.lines := by
      cases hnew : mode.replacement? reply (s.block number) with
      | none => rfl
      | some ls =>
        rw [Piece.replaced, hnew] at h
        exact (lines_eq_of_replacement? hmode hs hps hnew h.symm).2.symm
    -- Both sides go on behind this span with the same lines.
    rw [Piece.replaced, hlines] at h
    intro s' hs'
    rcases List.mem_cons.mp hs' with hs' | hs'
    · cases hs'
      intro m ls hls
      rw [Span.replacement?_block_eq m number] at hls
      rwa [Option.mem_def.mp hls] at hlines
    · exact ih (List.append_cancel_left h) s' hs'
  | unclosed _ _ =>
    intro s hs
    obtain ⟨l, -, hl⟩ := List.mem_map.mp hs
    cases hl

/-- A content with one line ending comes out as it went in if and only if no declaration changes. -/
theorem content_transform_eq_iff (hask : ask.IsConstant reply)
    (hmode : ∀ t ∈ mode.written, '"' ∉ t ∧ '\n' ∉ t) {e : Ending} (he : e ≠ .none) {content : Text}
    (huniform : IsUniform e content) (hps : Splits .code (Text.lines content) ps) (state : σ) :
    (transform ask mode content state).1.content = content ↔
      ∀ s, .block s ∈ ps → s.IsFixed mode reply := by
  rw [content_transform_of_isUniform hask he huniform hps state]
  constructor
  · intro h
    have hfits : Text.Fits e (endsLine content) (Piece.replaced (mode.replacement? reply) 1 ps) :=
      fits_replaced_lines (fun t ht => (hmode t ht).2) hps (fits_of_isUniform huniform)
    have hlines := lines_joinLines he hfits
    rw [h] at hlines
    exact hps.isFixed_of_replaced_eq (fun t ht => (hmode t ht).1) hlines.symm
  · intro h
    rw [Piece.replaced_of_isFixed h, hps.lines_eq]
    exact joinLines_lines_of_isUniform huniform

end SourceSwitch
