import Mathlib.Data.List.Forall2
import SourceSwitch.Proofs.Block.Intake
import SourceSwitch.Proofs.Block.Layout

namespace SourceSwitch

open SourceSwitch.Bracket
open Text (isBlank isBlankText trim byteLength splitAt?)

namespace Text

/-- A text without its blanks. -/
def ink (t : Text) : Text := t.filter fun c => ¬ isBlank c

@[simp] theorem ink_nil : ink [] = [] := rfl

@[simp] theorem ink_append (s t : Text) : ink (s ++ t) = ink s ++ ink t :=
  List.filter_append s t

theorem ink_eq_nil_iff {t : Text} : ink t = [] ↔ isBlankText t := by
  simp [ink, isBlankText_iff]

theorem ink_trim (t : Text) : ink (trim t) = ink t := by
  obtain ⟨v, w, hv, hw, he⟩ := exists_eq_append_trim t
  conv_rhs => rw [he]
  rw [ink_append, ink_append, ink_eq_nil_iff.mpr hv, ink_eq_nil_iff.mpr hw, List.nil_append,
    List.append_nil]

theorem ink_trimEnd (t : Text) : ink (trimEnd t) = ink t := by
  rw [← ink_trim, trim_trimEnd, ink_trim]

def weight (t : Text) : Nat := (ink t).length

@[simp] theorem weight_append (s t : Text) : weight (s ++ t) = weight s + weight t := by
  simp [weight]

theorem weight_eq_zero_iff {t : Text} : weight t = 0 ↔ isBlankText t := by
  rw [weight, List.length_eq_zero_iff, ink_eq_nil_iff]

theorem ink_nonempty? (t : Text) : ink ((nonempty? t).getD []) = ink t := by
  cases t <;> rfl

end Text

open Text (ink ink_append weight)

namespace Attribute

/-- The text that the pattern `key = "value"` matches. -/
def matched (key line : Text) : Text :=
  line.take (line.length - ((behind? key line).getD line).length)

theorem exists_matched {key val line : Text} (h : value? key line = some val) :
    ∃ rest, IsPattern key val (matched key line) ∧ line = matched key line ++ rest := by
  obtain ⟨p, rest, hbehind, hp, hline⟩ := exists_pattern h
  have hmatched : matched key line = p := by
    rw [matched, hbehind, Option.getD_some]
    conv_lhs => rw [hline]
    simp
  exact ⟨rest, hmatched ▸ hp, hmatched ▸ hline⟩

end Attribute

namespace Intake

/-- What belongs to an attribute: the text that its pattern matches, or all of a line on which it is
commented out. -/
def owned (i : Intake) : Text :=
  match i.attribute? with
  | some (.source _) => Attribute.matched "source" i.line
  | some (.version _) => Attribute.matched "version" i.line
  | some (.commentedSource _) | some .commentedVersion => i.line
  | none => []

def parts (i : Intake) : Text × Text :=
  (i.tally.commentAt.bind (splitAt? · i.line)).getD (i.line, [])

/-- What stands between an attribute and the comment behind it. -/
def dropped (i : Intake) : Text :=
  match i.attribute? with
  | some (.source _) | some (.version _) => i.parts.1.drop i.owned.length
  | _ => []

def IsTallied (i : Intake) : Prop :=
  ∃ carry w, i.tally = (Carry.scanAtDepth carry i.depth (i.line ++ w)).1

variable {i : Intake}

theorem parts_append (i : Intake) : i.parts.1 ++ i.parts.2 = i.line := by
  rw [parts]
  cases h : i.tally.commentAt.bind (splitAt? · i.line) with
  | none => exact List.append_nil _
  | some parts =>
    obtain ⟨k, -, hk⟩ := Option.bind_eq_some_iff.mp h
    exact (Text.eq_append_of_splitAt? hk).1.symm

theorem ink_comment? (i : Intake) :
    ink (ModuleBlock.comment? i.line i.tally.commentAt).toList.flatten = ink i.parts.2 := by
  have hcomment : ModuleBlock.comment? i.line i.tally.commentAt
      = (i.tally.commentAt.bind (splitAt? · i.line)).bind fun p => Text.nonempty? (trim p.2) := by
    rw [Option.bind_assoc]
    rfl
  have hflatten (t : Option Text) : t.toList.flatten = t.getD [] := by
    cases t <;> simp
  rw [hcomment, hflatten, parts]
  cases i.tally.commentAt.bind (splitAt? · i.line) with
  | none => rfl
  | some parts => exact (Text.ink_nonempty? _).trans (Text.ink_trim _)

theorem carry_eq_code (hd : i.IsDirect) {carry : Carry} {line : Text}
    (h : i.tally = (carry.scanAtDepth i.depth line).1) : carry = .code := by
  have hv := hd.2
  rw [h] at hv
  simpa using hv

theorem exists_parts_eq_matched_append {key val : Text} (hkey : Attribute.IsKey key)
    (hi : i.IsTallied) (hd : i.IsDirect) (h : Attribute.value? key i.line = some val) :
    ∃ gap, i.parts.1 = Attribute.matched key i.line ++ gap := by
  obtain ⟨rest, hp, hline⟩ := Attribute.exists_matched h
  obtain ⟨carry, w, htally⟩ := hi
  obtain rfl := carry_eq_code hd htally
  rw [parts]
  cases hat : i.tally.commentAt.bind (splitAt? · i.line) with
  | none => exact ⟨rest, hline⟩
  | some parts =>
    obtain ⟨before, tail⟩ := parts
    obtain ⟨k, hk, hsplit⟩ := Option.bind_eq_some_iff.mp hat
    obtain ⟨hbefore, hlength⟩ := Text.eq_append_of_splitAt? hsplit
    rw [htally, Carry.commentAt_scanAtDepth, hline, List.append_assoc] at hk
    have hle := Attribute.byteLength_le_of_commentAt hkey hp hk
    rcases List.append_eq_append_iff.mp (hline.symm.trans hbefore)
      with ⟨gap, hgap, -⟩ | ⟨gap, hgap, -⟩
    · exact ⟨gap, hgap⟩
    · rw [hgap, Text.byteLength_append] at hle
      have hgap' : gap = [] := by
        cases gap with
        | nil => rfl
        | cons c gap =>
          have hc := c.utf8Size_pos
          rw [Text.byteLength] at hle
          omega
      exact ⟨[], by rw [hgap, hgap']; simp⟩

/-- A line falls into what an attribute owns, what is dropped, and what goes into the body. -/
theorem ink_line (hi : i.IsTallied) :
    ink i.line = ink i.owned ++ ink i.dropped ++ ink i.share.flatten := by
  have hvalue {key val : Text} (hkey : Attribute.IsKey key) (hd : i.IsDirect)
      (h : Attribute.value? key i.line = some val) (howned : i.owned = Attribute.matched key i.line)
      (hdropped : i.dropped = i.parts.1.drop i.owned.length)
      (hshare : i.share = (ModuleBlock.comment? i.line i.tally.commentAt).toList) :
      ink i.line = ink i.owned ++ ink i.dropped ++ ink i.share.flatten := by
    obtain ⟨gap, hgap⟩ := exists_parts_eq_matched_append hkey hi hd h
    rw [hshare, ink_comment?, ← ink_append, hdropped, howned, hgap, List.drop_left, ← hgap,
      ← ink_append, parts_append]
  cases h : i.attribute? with
  | none => simp [owned, dropped, share, h]
  | some a =>
    obtain ⟨hd, ha⟩ := direct_of_attribute? h
    cases a with
    | source value =>
      exact hvalue Attribute.isKey_source hd (Attribute.value?_of_source ha)
        (by simp only [owned, h]) (by simp only [dropped, h]) (by simp only [share, h])
    | version value =>
      exact hvalue Attribute.isKey_version hd (Attribute.value?_of_version ha)
        (by simp only [owned, h]) (by simp only [dropped, h]) (by simp only [share, h])
    | commentedSource | commentedVersion => simp [owned, dropped, share, h]

end Intake

namespace Intake

variable {is : List Intake}

theorem weight_flatMap_line (h : ∀ i ∈ is, i.IsTallied) : weight (is.flatMap line)
    = weight (is.flatMap owned) + weight (is.flatMap dropped)
      + weight (is.flatMap share).flatten := by
  induction is with
  | nil => rfl
  | cons i is ih =>
    have hi : weight i.line = weight i.owned + weight i.dropped + weight i.share.flatten := by
      simpa [weight, Nat.add_assoc] using congrArg List.length (ink_line (h i List.mem_cons_self))
    have his := ih fun j hj => h j (List.mem_cons_of_mem i hj)
    simp only [List.flatMap_cons, List.flatten_append, Text.weight_append]
    omega

theorem weight_flatMap_line_of_shares {shares : List (List Text)} (h : List.Forall₂
      (fun i share => ink i.line = ink (i.owned ++ share.flatten)) is shares) :
    weight (is.flatMap line) = weight (is.flatMap owned) + weight shares.flatten.flatten := by
  induction h with
  | nil => rfl
  | @cons i share is shares hi _ ih =>
    have hi' : weight i.line = weight i.owned + weight share.flatten := by
      simpa [weight] using congrArg List.length hi
    simp only [List.flatMap_cons, List.flatten_cons, List.flatten_append, Text.weight_append]
    omega

end Intake

namespace Entry

def bracket (e : Entry) : Text :=
  match e.tally.closedAt.bind (splitAt? · e.line) with
  | some (_, rest) => rest.take 1
  | none => []

/-- The closing bracket is found on the line, or there is nothing to be lost. -/
def IsLocated (e : Entry) : Prop := e.tally.closedAt.isSome ∨ isBlankText e.line

instance : DecidablePred IsLocated := fun e =>
  inferInstanceAs (Decidable (e.tally.closedAt.isSome ∨ isBlankText e.line))

variable {e : Entry}

theorem isTallied_intake (e : Entry) : e.intake.IsTallied :=
  ⟨e.carry, [], by rw [List.append_nil]; rfl⟩

theorem isTallied_of_mem_codeIntakes {i : Intake} (hi : i ∈ e.codeIntakes) : i.IsTallied := by
  rw [codeIntakes] at hi
  by_cases hblank : isBlankText e.code
  · rw [if_pos hblank] at hi
    cases hi
  rw [if_neg hblank] at hi
  obtain rfl := List.mem_singleton.mp hi
  have hclosed : e.tally.closedAt.isSome := by
    rw [Option.isSome_iff_ne_none]
    intro hnone
    rw [code_of_closedAt_eq_none hnone] at hblank
    exact hblank rfl
  obtain ⟨p, c, q, ms, hcut, -, hp⟩ := exists_cut hclosed
  obtain ⟨w, -, hw⟩ := Text.exists_eq_trimEnd_append p
  refine ⟨e.carry, w ++ c :: q, ?_⟩
  have hline : e.line = Text.trimEnd e.code ++ (w ++ c :: q) := by
    rw [code, hp, ← List.append_assoc, ← hw]
    exact hcut.line_eq
  change e.tally = (e.carry.scanAtDepth e.depth (Text.trimEnd e.code ++ (w ++ c :: q))).1
  rw [← hline]
  rfl

theorem ink_code (h : ∀ i ∈ e.codeIntakes, isBlankText i.dropped) : ink e.code
    = ink (e.codeIntakes.flatMap Intake.owned ++ (e.codeIntakes.flatMap Intake.share).flatten) := by
  have htallied : ∀ i ∈ e.codeIntakes, i.IsTallied := by
    intro _
    exact isTallied_of_mem_codeIntakes
  rw [codeIntakes] at h htallied ⊢
  by_cases hblank : isBlankText e.code
  · rw [if_pos hblank, Text.ink_eq_nil_iff.mpr hblank]
    rfl
  · rw [if_neg hblank] at h htallied ⊢
    rw [List.flatMap_singleton, List.flatMap_singleton, ← Text.ink_trimEnd, ink_append]
    apply (Intake.ink_line (htallied _ List.mem_cons_self)).trans
    rw [Text.ink_eq_nil_iff.mpr (h _ List.mem_cons_self), List.append_nil]

theorem weight_code (e : Entry) : weight e.code = weight (e.codeIntakes.flatMap Intake.line) := by
  rw [codeIntakes]
  by_cases hblank : isBlankText e.code
  · rw [if_pos hblank, Text.weight_eq_zero_iff.mpr hblank]
    rfl
  · rw [if_neg hblank]
    simp [weight, Text.ink_trimEnd]

theorem ink_line_of_closedAt (h : e.tally.closedAt.isSome) :
    ink e.line = ink e.code ++ ink e.bracket ++ ink e.rest := by
  obtain ⟨p, c, q, ms, hcut, hk, hp⟩ := exists_cut h
  have hbracket : e.bracket = [c] := by
    rw [bracket, hk, hcut.line_eq]
    simp only [Option.bind_some, Text.splitAt?_append]
    rfl
  rw [code, rest, hp, hbracket, ← ink_append, ← ink_append, hcut.line_eq]
  simp

theorem weight_line_of_closedAt (h : e.tally.closedAt.isSome) :
    weight e.line = weight e.code + weight e.bracket + weight e.rest := by
  simpa [weight, Nat.add_assoc] using congrArg List.length (ink_line_of_closedAt h)

theorem bracket_of_closedAt_eq_none (h : e.tally.closedAt = none) : e.bracket = [] := by
  rw [bracket, h]
  rfl

end Entry

namespace Span

/-- The body can be dealt out to the lines so that every line's text is what its attribute owns, its
share of the body and, on the last line, the closing bracket and the trailer. -/
def IsAccounted (s : Span) (b : ModuleBlock) : Prop :=
  ∃ (shares : List (List Text)) (lastShare : List Text), b.body = shares.flatten ++ lastShare ∧
    List.Forall₂ (fun i share => ink i.line = ink (i.owned ++ share.flatten))
      (s.entries.map Entry.intake) shares ∧
    ink s.last = ink (s.closing.codeIntakes.flatMap Intake.owned ++ lastShare.flatten
      ++ s.closing.bracket ++ b.trailer.getD [])

/-- Nothing stands between an attribute and its comment, and the closing bracket is found. -/
structure IsLossless (s : Span) : Prop where
  dropped_blank : ∀ i ∈ s.intakes, isBlankText i.dropped
  located : s.closing.IsLocated

instance : DecidablePred IsLossless := fun s =>
  decidable_of_iff ((∀ i ∈ s.intakes, isBlankText i.dropped) ∧ s.closing.IsLocated)
    ⟨fun ⟨hdropped, hlocated⟩ => ⟨hdropped, hlocated⟩, fun h => ⟨h.dropped_blank, h.located⟩⟩

variable {s : Span}

theorem isTallied_of_mem_intakes {i : Intake} (hi : i ∈ s.intakes) : i.IsTallied := by
  rcases List.mem_append.mp hi with hi | hi
  · obtain ⟨e, -, rfl⟩ := List.mem_map.mp hi
    exact e.isTallied_intake
  · exact Entry.isTallied_of_mem_codeIntakes hi

theorem ink_trailer_block (number : Nat) (s : Span) :
    ink ((s.block number).trailer.getD []) = ink s.closing.rest := by
  rw [trailer_block, Text.ink_nonempty?, Text.ink_trim]

theorem IsLossless.isAccounted (h : s.IsLossless) (number : Nat) :
    s.IsAccounted (s.block number) := by
  have hline {i : Intake} (hi : i ∈ s.intakes) :
      ink i.line = ink (i.owned ++ i.share.flatten) := by
    rw [Intake.ink_line (isTallied_of_mem_intakes hi),
      Text.ink_eq_nil_iff.mpr (h.dropped_blank i hi), List.append_nil, ink_append]
  refine ⟨(s.entries.map Entry.intake).map Intake.share, s.closing.codeIntakes.flatMap Intake.share,
    ?_, ?_, ?_⟩
  · rw [body_block, intakes, List.flatMap_append]
    rfl
  · rw [List.forall₂_map_right_iff, List.forall₂_same]
    intro i hi
    exact hline (List.mem_append_left _ hi)
  · have hcode := Entry.ink_code fun i hi => h.dropped_blank i (List.mem_append_right _ hi)
    rw [ink_append, ink_trailer_block, ink_append _ s.closing.bracket, ← hcode]
    by_cases hclosed : s.closing.tally.closedAt.isSome
    · exact Entry.ink_line_of_closedAt hclosed
    · have hnone := Option.not_isSome_iff_eq_none.mp hclosed
      have hblank : isBlankText s.last := h.located.resolve_left hclosed
      rw [Text.ink_eq_nil_iff.mpr hblank, Entry.code_of_closedAt_eq_none hnone,
        Entry.bracket_of_closedAt_eq_none hnone, Entry.rest_of_closedAt_eq_none hnone]
      rfl

/-- The shares may be dealt out in another way, so of them only the weight in all is known. -/
theorem IsAccounted.weight_eq {number : Nat} (h : s.IsAccounted (s.block number)) :
    weight ((s.entries.map Entry.intake).flatMap Intake.dropped) + weight s.last
      = weight (s.closing.codeIntakes.flatMap Intake.owned)
        + weight (s.closing.codeIntakes.flatMap Intake.share).flatten
        + weight s.closing.bracket + weight s.closing.rest := by
  obtain ⟨shares, lastShare, hbody, hshares, hlast⟩ := h
  have hlines := Intake.weight_flatMap_line fun i hi =>
    isTallied_of_mem_intakes (s := s) (List.mem_append_left _ hi)
  have hlines' := Intake.weight_flatMap_line_of_shares hshares
  have hbody' : weight ((s.entries.map Entry.intake).flatMap Intake.share).flatten
      + weight (s.closing.codeIntakes.flatMap Intake.share).flatten
        = weight shares.flatten.flatten + weight lastShare.flatten := by
    rw [body_block, intakes, List.flatMap_append] at hbody
    simpa using congrArg (fun b : List Text => weight b.flatten) hbody
  have hlast' : weight s.last = weight (s.closing.codeIntakes.flatMap Intake.owned)
      + weight lastShare.flatten + weight s.closing.bracket + weight s.closing.rest := by
    rw [ink_append, ink_trailer_block] at hlast
    simpa [weight, Nat.add_assoc] using congrArg List.length hlast
  omega

theorem IsAccounted.isLossless {number : Nat} (h : s.IsAccounted (s.block number)) :
    s.IsLossless := by
  have hweight := h.weight_eq
  have hnothing : weight (s.intakes.flatMap Intake.dropped) = 0 ∧ s.closing.IsLocated := by
    rw [intakes, List.flatMap_append, Text.weight_append]
    by_cases hclosed : s.closing.tally.closedAt.isSome
    · have hline : weight s.last = _ := Entry.weight_line_of_closedAt hclosed
      have hcode := Intake.weight_flatMap_line fun i hi =>
        isTallied_of_mem_intakes (s := s) (List.mem_append_right _ hi)
      rw [Entry.weight_code] at hline
      exact ⟨by omega, .inl hclosed⟩
    · have hnone := Option.not_isSome_iff_eq_none.mp hclosed
      rw [Entry.codeIntakes_of_closedAt_eq_none hnone, Entry.bracket_of_closedAt_eq_none hnone,
        Entry.rest_of_closedAt_eq_none hnone] at hweight
      simp only [List.flatMap_nil, List.flatten_nil] at hweight
      rw [Entry.codeIntakes_of_closedAt_eq_none hnone, List.flatMap_nil]
      have hzero : weight ([] : Text) = 0 := rfl
      have hblank : weight s.last = 0 := by omega
      exact ⟨by omega, .inr (Text.weight_eq_zero_iff.mp hblank)⟩
  refine ⟨fun i hi => ?_, hnothing.2⟩
  have hdropped := Text.isBlankText_iff.mp (Text.weight_eq_zero_iff.mp hnothing.1)
  exact Text.isBlankText_iff.mpr fun c hc => hdropped c (List.mem_flatMap.mpr ⟨i, hi, hc⟩)

end Span

namespace ModuleBlock

variable {b : ModuleBlock}

theorem exists_render_eq (hindent : isBlankText b.indent) (source : Text)
    (version : Option Text) : ∃ front laid, b.render source version = front ++ laid ++ [b.footer] ∧
      laid.map trim = (b.body.dropWhile isBlankText).map trim ∧
      ∃ v, b.footer = v ++ b.trailer.getD [] := by
  have hlaid := Layout.map_trim_reindent (isBlankText_inner hindent) b.body
  have hfooter : ∃ v, b.footer = v ++ b.trailer.getD [] := by
    rw [footer]
    cases b.trailer with
    | none => exact ⟨_, (List.append_nil _).symm⟩
    | some trailer => exact ⟨_, rfl⟩
  cases h : Layout.reindent (b.indent ++ Layout.unit) b.body with
  | nil =>
    rw [h] at hlaid
    refine ⟨b.lead source version, [], ?_, hlaid, hfooter⟩
    rw [render_eq, paragraph, h]
  | cons l ls =>
    rw [h] at hlaid
    refine ⟨b.lead source version ++ [[]], l :: ls, ?_, hlaid, hfooter⟩
    rw [render_eq, paragraph, h, List.append_assoc _ [[]]]
    rfl

end ModuleBlock

theorem isAccounted_span_iff {lines : List Text} {b : ModuleBlock} (hb : b ∈ readBlocks lines) :
    (b.span lines).IsAccounted b ↔ (b.span lines).IsLossless := by
  obtain ⟨v, s, w, -, -, rfl, hs⟩ := exists_span_of_mem_readBlocks hb
  rw [hs]
  exact ⟨Span.IsAccounted.isLossless, fun h => h.isAccounted _⟩

/-- No text is lost exactly where nothing is dropped and the bracket is found. Whatever source and
version are written, the body and the trailer are written with them. -/
theorem readBlocks_isAccounted_iff {lines : List Text} {b : ModuleBlock}
    (hb : b ∈ readBlocks lines) :
    ((b.span lines).IsAccounted b ↔ (b.span lines).IsLossless) ∧
      ∀ source version, ∃ front laid, b.render source version = front ++ laid ++ [b.footer] ∧
        laid.map trim = (b.body.dropWhile isBlankText).map trim ∧
        ∃ v, b.footer = v ++ b.trailer.getD [] := by
  refine ⟨isAccounted_span_iff hb, ?_⟩
  obtain ⟨v, s, w, -, -, rfl, -⟩ := exists_span_of_mem_readBlocks hb
  exact ModuleBlock.exists_render_eq (ModuleBlock.isBlankText_indent_block _ _)

def crowdedLines : List Text :=
  [r#"module "vnet" {"#, r#"  source = "../../" # as released"#, r#"  version = "1.0.0" count = 2"#,
    r"  } # end"]

theorem readBlocks_isAccounted_iff_crowdedLines :
    ∃ b ∈ readBlocks crowdedLines, ((b.span crowdedLines).IsAccounted b ↔
      (b.span crowdedLines).IsLossless) ∧
      ∀ source version, ∃ front laid, b.render source version = front ++ laid ++ [b.footer] ∧
        laid.map trim = (b.body.dropWhile isBlankText).map trim ∧
        ∃ v, b.footer = v ++ b.trailer.getD [] := by
  have hb : (readBlocks crowdedLines).headD (.ofHeader 1 [] ⟨[], []⟩)
      ∈ readBlocks crowdedLines := by
    decide
  exact ⟨_, hb, readBlocks_isAccounted_iff hb⟩

/-- A name that ends in a backslash hides the header's bracket, so the next line closes. -/
def hiddenLines : List Text := [r#"module "vnet\" {"#, r#"  source = "../../""#]

theorem exists_not_isAccounted :
    (∃ b ∈ readBlocks crowdedLines, ¬ (b.span crowdedLines).IsAccounted b) ∧
      ∃ b ∈ readBlocks hiddenLines, ¬ (b.span hiddenLines).IsAccounted b := by
  have hlossy {lines : List Text}
      (h : ∃ b ∈ readBlocks lines, ¬ (b.span lines).IsLossless) :
      ∃ b ∈ readBlocks lines, ¬ (b.span lines).IsAccounted b := by
    obtain ⟨b, hb, hlossy⟩ := h
    exact ⟨b, hb, fun h => hlossy ((isAccounted_span_iff hb).mp h)⟩
  exact ⟨hlossy (by decide), hlossy (by decide)⟩

end SourceSwitch
