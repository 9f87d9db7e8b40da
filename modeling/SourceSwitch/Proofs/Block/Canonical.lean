import SourceSwitch.Proofs.Block.Accounting
import SourceSwitch.Proofs.Block.Rereading

namespace SourceSwitch

open SourceSwitch.Bracket (Carry)
open Text (isBlank isBlankText trim weight ink)

namespace Text

variable {ls : List Text} {t : Text}

theorem weight_trim (t : Text) : weight (trim t) = weight t := by
  rw [weight, ink_trim, weight]

theorem weight_flatten_trim (ls : List Text) : weight (ls.map trim).flatten
    = weight ls.flatten := by
  induction ls with
  | nil => rfl
  | cons l ls ih =>
    rw [List.map_cons, List.flatten_cons, List.flatten_cons, weight_append, weight_append, ih,
      weight_trim]

theorem weight_dropWhile_blank (ls : List Text) :
    weight (ls.dropWhile isBlankText).flatten = weight ls.flatten := by
  induction ls with
  | nil => rfl
  | cons l ls ih =>
    by_cases hl : isBlankText l
    · rw [List.dropWhile_cons_of_pos hl, ih, List.flatten_cons, weight_append,
        weight_eq_zero_iff.mpr hl, Nat.zero_add]
    · rw [List.dropWhile_cons_of_neg hl]

end Text

namespace Intake

variable {i : Intake}

theorem attribute?_eq_none_of_owned (h : isBlankText i.owned) : i.attribute? = none := by
  have hpattern {key val line : Text} (hv : Attribute.value? key line = some val) :
      ¬ isBlankText (Attribute.matched key line) := by
    obtain ⟨-, hp, -⟩ := Attribute.exists_matched hv
    obtain ⟨u, v, w, -, -, -, he⟩ := hp.eq_append
    intro hblank
    have hequals : isBlank '=' := by
      apply Text.isBlankText_iff.mp hblank
      rw [he]
      simp
    exact absurd hequals (by decide)
  have hline {line : Text} (hl : isBlankText line) : Attribute.ofLine? line = none := by
    rw [← Attribute.ofLine?_trim, Text.trim_eq_nil_of_blank hl]
    rfl
  cases ha : i.attribute? with
  | none => rfl
  | some a =>
    obtain ⟨-, hof⟩ := direct_of_attribute? ha
    rw [owned, ha] at h
    cases a with
    | source value => exact absurd h (hpattern (Attribute.value?_of_source hof))
    | version value => exact absurd h (hpattern (Attribute.value?_of_version hof))
    | commentedSource | commentedVersion =>
      rw [hline h] at hof
      cases hof

theorem attribute?_of_weight {is : List Intake} (hi : ∀ i ∈ is, i.IsTallied)
    (h : weight (is.flatMap line) ≤ weight (is.flatMap share).flatten) :
    ∀ i ∈ is, i.attribute? = none := by
  have hsum := weight_flatMap_line hi
  have howned : weight (is.flatMap owned) = 0 := by omega
  rw [Text.weight_eq_zero_iff] at howned
  intro i hmem
  apply attribute?_eq_none_of_owned
  rw [Text.isBlankText_iff] at howned ⊢
  intro c hc
  exact howned c (List.mem_flatMap.mpr ⟨i, hmem, hc⟩)

theorem share_of_brace {t : Text} (h : trim i.line = '}' :: t) : i.share = [i.line] := by
  apply share_of_plain
  have hline : Attribute.ofLine? ('}' :: t) = none := by
    have hstart : Text.trimStart ('}' :: t) = '}' :: t := rfl
    simp [Attribute.ofLine?, Attribute.value?, Attribute.assigned?, Attribute.uncommented?, hstart,
      Text.after?]
  rw [attribute?, ← Attribute.ofLine?_trim, h, hline, ite_self]

end Intake

theorem Bracket.Carry.isBody_of_plain {d : Int} {carry : Carry} {ls : List Text}
    (hopen : carry.StaysOpen d ls)
    (h : ∀ e ∈ Entry.ofLines d carry ls, e.intake.attribute? = none) :
    carry.IsBody d ls := by
  induction ls generalizing d carry with
  | nil => trivial
  | cons l ls ih =>
    refine ⟨hopen.1, fun hd hc => ?_, ih hopen.2 fun e he => h e (List.mem_cons_of_mem _ he)⟩
    have hl := h _ List.mem_cons_self
    rw [Intake.attribute?, ite_eq_right_iff] at hl
    exact hl ⟨hd, by simp [Entry.intake, Entry.tally, hc]⟩

namespace ModuleBlock

variable {b : ModuleBlock}

theorem weight_paragraph {base : Text} (hbase : isBlankText base) (body : List Text) :
    weight (paragraph base body).flatten = weight body.flatten := by
  have hlaid : weight (Layout.reindent base body).flatten = weight body.flatten := by
    rw [← Text.weight_flatten_trim, Layout.map_trim_reindent hbase, Text.weight_flatten_trim,
      Text.weight_dropWhile_blank]
  rw [paragraph_eq]
  split
  · next h => rw [← hlaid, h]
  · exact hlaid

theorem weight_footer (hindent : isBlankText b.indent) :
    weight b.footer = 1 + weight (b.trailer.getD []) := by
  have htail : weight b.tail = weight (b.trailer.getD []) := by
    rw [← Text.weight_trim, b.scan_tail.2.2, Text.weight_trim]
  rw [footer_eq, Text.weight_append, Text.weight_eq_zero_iff.mpr hindent, Nat.zero_add,
    ← List.singleton_append, Text.weight_append, htail]
  rfl

theorem exists_trim_footer_eq (hindent : isBlankText b.indent) :
    ∃ t, trim b.footer = '}' :: t := by
  rw [footer_eq, Text.trim_append_left hindent]
  change ∃ t, Text.trimEnd (['}'] ++ b.tail) = _
  by_cases hblank : isBlankText b.tail
  · rw [Text.trimEnd_append_blank _ hblank]
    exact ⟨[], rfl⟩
  · rw [Text.trimEnd_append_of_not_blank hblank]
    exact ⟨_, rfl⟩

theorem countP_paragraph {base : Text} (hbase : isBlankText base) {t : Text} (ht : t ≠ [])
    (body : List Text) : (paragraph base body).countP (trim · = t) = body.countP (trim · = t) := by
  have hmap (ls : List Text) : ls.countP (trim · = t) = (ls.map trim).countP (· = t) := by
    rw [List.countP_map]
    rfl
  have hblank {l : Text} (hl : isBlankText l) : ¬ trim l = t := by
    rw [Text.trim_eq_nil_of_blank hl]
    exact ht.symm
  have hdrop : (body.dropWhile isBlankText).countP (trim · = t) = body.countP (trim · = t) := by
    induction body with
    | nil => rfl
    | cons l body ih =>
      by_cases hl : isBlankText l
      · rw [List.dropWhile_cons_of_pos hl, ih, List.countP_cons_of_neg (by simpa using hblank hl)]
      · rw [List.dropWhile_cons_of_neg hl]
  have hlaid : (Layout.reindent base body).countP (trim · = t) = body.countP (trim · = t) := by
    rw [hmap, Layout.map_trim_reindent hbase, ← hmap, hdrop]
  rw [paragraph_eq]
  split
  · next h => rw [← hlaid, h]
  · rw [List.countP_cons_of_neg (by simpa using hblank Text.isBlankText_nil), hlaid]

theorem eq_nil_of_paragraph_append {base : Text} (hbase : isBlankText base)
    {body ls : List Text} (hls : ∀ l ∈ ls, ¬ isBlankText l)
    (h : body = paragraph base body ++ ls) : ls = [] := by
  by_cases hnil : Layout.reindent base body = []
  · rw [paragraph_eq, if_pos hnil, List.nil_append] at h
    rw [Layout.reindent_eq_nil_iff hbase, List.all_eq_true, h] at hnil
    exact List.eq_nil_iff_forall_not_mem.mpr fun l hl => hls l hl (hnil l hl)
  · rw [paragraph_eq, if_neg hnil, List.cons_append] at h
    have hlength := Layout.length_reindent hbase body
    rw [h, List.dropWhile_cons_of_pos Text.isBlankText_nil, ← h, List.dropWhile_append,
      Layout.dropWhile_reindent hbase, if_neg (by simpa using hnil), List.length_append] at hlength
    exact List.length_eq_zero_iff.mp (by omega)

end ModuleBlock

namespace Span

variable {s : Span} {number : Nat} {source : Text} {version : Option Text}

theorem flatMap_line_entries (s : Span) :
    (s.entries.map Entry.intake).flatMap Intake.line = s.inner.flatten := by
  rw [List.flatMap_map]
  change (s.entries.flatMap Entry.line) = _
  rw [List.flatMap_def, entries, Entry.map_line_ofLines]

theorem weight_lines (h : s.closing.tally.closedAt.isSome) : weight s.lines.flatten
    = weight s.header + weight (s.intakes.flatMap Intake.line) + 1 + weight s.closing.rest := by
  obtain ⟨p, c, q, ms, hcut, hk, hp⟩ := Entry.exists_cut h
  have hlast : weight s.last = weight s.closing.code + 1 + weight s.closing.rest := by
    have hline : s.last = p ++ c :: q := hcut.line_eq
    have hblank : ¬ isBlank c := by
      intro hblank
      have hclosing := hcut.isClosing
      simp only [Bracket.isClosing, Bool.or_eq_true, decide_eq_true_eq] at hclosing
      rcases hclosing with (rfl | rfl) | rfl <;> exact absurd hblank (by decide)
    have hone : weight [c] = 1 := by simp [weight, ink, hblank]
    rw [Entry.code, Entry.rest, hp, hline, ← List.singleton_append, Text.weight_append,
      Text.weight_append, hone, Nat.add_assoc]
  rw [intakes, List.flatMap_append, Text.weight_append, flatMap_line_entries, ← Entry.weight_code,
    lines, List.flatten_append, List.flatten_cons, Text.weight_append, Text.weight_append,
    List.flatten_singleton, hlast]
  omega

theorem weight_render (s : Span) (number : Nat) (source : Text) (version : Option Text) :
    weight ((s.block number).render source version).flatten
      = weight s.header + weight ((s.block number).settings source version).flatten
        + weight (s.intakes.flatMap Intake.share).flatten + 1 + weight s.closing.rest := by
  have hindent := ModuleBlock.isBlankText_indent_block number s
  have htrailer : weight ((s.block number).trailer.getD []) = weight s.closing.rest :=
    congrArg List.length (ink_trailer_block number s)
  rw [ModuleBlock.render_eq_cons, List.flatten_cons, List.flatten_append, List.flatten_append,
    List.flatten_singleton, header_block, Text.weight_append, Text.weight_append,
      Text.weight_append,
    ModuleBlock.weight_paragraph (ModuleBlock.isBlankText_inner hindent), body_block,
    ModuleBlock.weight_footer hindent, htrailer]
  omega

theorem countP_inner_le {t : Text} (s : Span) (number : Nat) :
    s.inner.countP (trim · = '}' :: t) ≤ (s.block number).body.countP (trim · = '}' :: t) := by
  have hentries (d : Int) (carry : Carry) (ls : List Text) : ls.countP (trim · = '}' :: t)
      ≤ (((Entry.ofLines d carry ls).map Entry.intake).flatMap Intake.share).countP
        (trim · = '}' :: t) := by
    induction ls generalizing d carry with
    | nil => exact Nat.le_refl 0
    | cons l ls ih =>
      have hrest := ih (d + carry.net l) (carry.next l)
      rw [Entry.ofLines, List.map_cons, List.flatMap_cons, List.countP_append]
      by_cases hl : trim l = '}' :: t
      · rw [Intake.share_of_brace (i := Entry.intake ⟨d, carry, l⟩) hl]
        change _ ≤ [l].countP _ + _
        rw [List.countP_cons_of_pos (by simpa using hl), List.countP_singleton]
        simp only [hl, decide_true, if_true]
        omega
      · rw [List.countP_cons_of_neg (by simpa using hl)]
        omega
  rw [body_block, intakes, List.flatMap_append, List.countP_append]
  exact (hentries _ _ _).trans (Nat.le_add_right _ _)

/-- No line stands behind those that are written: there would be more lines like the last one. -/
theorem eq_nil_of_lines_eq {z : List Text}
    (h : s.lines = (s.block number).render source version ++ z) : z = [] := by
  have hindent := ModuleBlock.isBlankText_indent_block number s
  obtain ⟨t, ht⟩ := ModuleBlock.exists_trim_footer_eq hindent
  rcases List.eq_nil_or_concat z with rfl | ⟨z, l, rfl⟩
  · rfl
  · rw [lines, ModuleBlock.render_eq_cons, List.concat_eq_append, ← List.append_assoc] at h
    obtain ⟨hinner, -⟩ := List.append_inj' h rfl
    rw [List.cons_append] at hinner
    have hcount := congrArg (List.countP (trim · = '}' :: t)) (List.cons.inj hinner).2
    have hfooter : [(s.block number).footer].countP (trim · = '}' :: t) = 1 := by
      simp [ht]
    have hbody := s.countP_inner_le (t := t) number
    rw [List.countP_append, List.countP_append, List.countP_append, hfooter,
      ModuleBlock.countP_paragraph (ModuleBlock.isBlankText_inner hindent) (by simp)] at hcount
    omega

theorem eq_rewritten_of_lines_eq (h : s.lines = (s.block number).render source version) :
    s.inner = (s.block number).settings source version
        ++ ModuleBlock.paragraph ((s.block number).indent ++ Layout.unit) (s.block number).body ∧
      s.last = (s.block number).footer := by
  rw [lines, ModuleBlock.render_eq_cons, ← List.cons_append] at h
  obtain ⟨hinner, hlast⟩ := List.append_inj' h rfl
  exact ⟨(List.cons.inj hinner).2, (List.cons.inj hlast).1⟩

def otherIntakes (inner : List Text) (s : Span) : List Intake :=
  (Entry.ofLines 1 .code inner).map Entry.intake ++ s.closing.codeIntakes

theorem isTallied_of_mem_otherIntakes (inner : List Text) (s : Span) :
    ∀ i ∈ s.otherIntakes inner, i.IsTallied := by
  intro i hi
  rcases List.mem_append.mp hi with hi | hi
  · obtain ⟨e, -, rfl⟩ := List.mem_map.mp hi
    exact e.isTallied_intake
  · exact Entry.isTallied_of_mem_codeIntakes hi

theorem isBlankText_code_of_body_eq (h : (s.block number).body
      = ModuleBlock.paragraph ((s.block number).indent ++ Layout.unit) (s.block number).body
        ++ s.closing.codeIntakes.map Intake.line) : isBlankText s.closing.code := by
  have hindent := ModuleBlock.isBlankText_indent_block number s
  by_contra hcode
  have hcodes : s.closing.codeIntakes
      = [⟨s.closing.depth, s.closing.tally, Text.trimEnd s.closing.code⟩] := if_neg hcode
  rw [hcodes] at h
  have hnil := ModuleBlock.eq_nil_of_paragraph_append (ModuleBlock.isBlankText_inner hindent) ?_ h
  · cases hnil
  · intro l hl
    obtain rfl := List.mem_singleton.mp hl
    rwa [← Text.weight_eq_zero_iff, weight, Text.ink_trimEnd, ← weight, Text.weight_eq_zero_iff]

section Written

variable (hs : s.IsComplete) (hdepth : s.depth = 1) (hsource : '"' ∉ source)
  (hversion : ∀ v ∈ version, '"' ∉ v)

include hsource hversion in
theorem scan_settings (number : Nat) (s : Span) : ∀ l ∈ (s.block number).settings source version,
    Carry.code.net l = 0 ∧ Carry.code.next l = .code := by
  intro l hl
  apply ModuleBlock.scan_of_mem_settings _ hsource hversion hl
  exact ModuleBlock.isBlankText_indent_block number s

include hdepth hsource hversion

include hs in
/-- The written settings close nothing, so they are all among the inner lines. -/
theorem exists_inner_eq {v w : List Text}
    (h : s.lines ++ v = (s.block number).render source version ++ w) :
    ∃ inner, s.inner = (s.block number).settings source version ++ inner := by
  have hsettings := scan_settings hsource hversion number s
  rw [lines, ModuleBlock.render_eq_cons, List.cons_append, List.cons_append, List.cons_append,
    List.append_assoc, List.append_assoc, List.append_assoc] at h
  rcases List.append_eq_append_iff.mp (List.cons.inj h).2 with ⟨z, hz, hlast⟩ | ⟨z, hz, -⟩
  · cases z with
    | nil => exact ⟨[], by rw [hz]; simp⟩
    | cons l z =>
      -- The last line would be one of the settings, behind which the declaration is open.
      obtain ⟨rfl, -⟩ := List.cons.inj hlast
      obtain ⟨-, hnetAll, hnextAll, -⟩ := Carry.of_scan 1 (by decide) fun l hl =>
        hsettings l (by rw [hz]; exact List.mem_append_left _ hl)
      obtain ⟨hnet, -⟩ :=
        hsettings s.last (by rw [hz]; exact List.mem_append_right _ List.mem_cons_self)
      have hcloses : s.depth + Carry.code.netAll s.inner
          + (Carry.code.nextAll s.inner).net s.last ≤ 0 := hs.closes
      rw [hdepth, hnetAll, hnextAll, hnet] at hcloses
      omega
  · exact ⟨z, hz⟩

theorem intakes_eq {inner : List Text}
    (hinner : s.inner = (s.block number).settings source version ++ inner) :
    s.intakes = ((s.block number).settings source version).map (fun l => Entry.intake ⟨1, .code, l⟩)
      ++ s.otherIntakes inner := by
  obtain ⟨-, hnetAll, hnextAll, hentries⟩ := Carry.of_scan 1 (by decide)
    (scan_settings hsource hversion number s)
  rw [intakes, entries, hdepth, hinner, Entry.ofLines_append, hnetAll, hnextAll, hentries,
    List.map_append, List.map_map, otherIntakes, List.append_assoc]
  rfl

include hs in
theorem weight_lines_render {inner : List Text}
    (hinner : s.inner = (s.block number).settings source version ++ inner) :
    weight s.lines.flatten + weight ((s.otherIntakes inner).flatMap Intake.share).flatten
      = weight ((s.block number).render source version).flatten
        + weight ((s.otherIntakes inner).flatMap Intake.line) := by
  have hlines := weight_lines (closedAt_isSome hs hdepth)
  have hrender := s.weight_render number source version
  have hshare := ModuleBlock.flatMap_share_settings (ModuleBlock.isBlankText_indent_block number s)
    hsource hversion
  have hline (ls : List Text) :
      (ls.map fun l => Entry.intake ⟨1, .code, l⟩).flatMap Intake.line = ls.flatten := by
    rw [List.flatMap_map]
    exact List.flatMap_id
  rw [intakes_eq hdepth hsource hversion hinner, List.flatMap_append] at hlines hrender
  rw [hline, Text.weight_append] at hlines
  rw [hshare, List.nil_append] at hrender
  omega

include hs in
/-- What is written has no line behind those that stand there: it would weigh more. -/
theorem eq_nil_of_render_eq {z : List Text}
    (h : (s.block number).render source version = s.lines ++ z) : z = [] := by
  obtain ⟨inner, hinner⟩ := exists_inner_eq hs hdepth hsource hversion (v := z) (w := [])
    (by rw [h, List.append_nil])
  have hweight := weight_lines_render hs hdepth hsource hversion hinner
  have htallied := Intake.weight_flatMap_line (isTallied_of_mem_otherIntakes inner s)
  rcases List.eq_nil_or_concat z with rfl | ⟨z, l, rfl⟩
  · rfl
  · rw [ModuleBlock.render_eq, List.concat_eq_append, ← List.append_assoc] at h
    obtain ⟨-, hl⟩ := List.append_inj' h rfl
    obtain rfl := (List.cons.inj hl).1
    -- The line behind would be the footer, which is not blank.
    have hfooter := ModuleBlock.weight_footer (ModuleBlock.isBlankText_indent_block number s)
    rw [ModuleBlock.render_eq, h, List.flatten_append, List.flatten_append, List.flatten_singleton,
      Text.weight_append, Text.weight_append] at hweight
    omega

include hs in
theorem lines_eq_of_append_eq {v w : List Text}
    (h : s.lines ++ v = (s.block number).render source version ++ w) :
    s.lines = (s.block number).render source version := by
  rcases List.append_eq_append_iff.mp h with ⟨z, hz, -⟩ | ⟨z, hz, -⟩
  · rw [hz, eq_nil_of_render_eq hs hdepth hsource hversion hz, List.append_nil]
  · rw [hz, eq_nil_of_lines_eq hz, List.append_nil]

include hs in
theorem attribute?_of_lines_eq (h : s.lines = (s.block number).render source version)
    {inner : List Text} (hinner : s.inner = (s.block number).settings source version ++ inner) :
    ∀ i ∈ s.otherIntakes inner, i.attribute? = none := by
  have hweight := weight_lines_render hs hdepth hsource hversion hinner
  rw [h] at hweight
  exact Intake.attribute?_of_weight (isTallied_of_mem_otherIntakes inner s) (by omega)

theorem block_eq_of_plain {inner : List Text}
    (hinner : s.inner = (s.block number).settings source version ++ inner)
    (hplain : ∀ i ∈ s.otherIntakes inner, i.attribute? = none) :
    (s.block number).source = some source ∧
      (s.block number).body = inner ++ s.closing.codeIntakes.map Intake.line := by
  have hlines : (s.otherIntakes inner).map Intake.line
      = inner ++ s.closing.codeIntakes.map Intake.line := by
    rw [otherIntakes, List.map_append, List.map_map]
    exact congrArg (· ++ _) (Entry.map_line_ofLines 1 .code inner)
  rw [block_eq, intakes_eq hdepth hsource hversion hinner, List.foldl_append,
    ModuleBlock.foldl_settings (ModuleBlock.isBlankText_indent_block number s) hsource hversion,
    Intake.foldl_into_of_plain hplain, hlines]
  exact ⟨rfl, rfl⟩

theorem scan_inner_of_eq {inner : List Text}
    (hinner : s.inner = (s.block number).settings source version ++ inner) :
    Carry.code.netAll s.inner = Carry.code.netAll inner ∧
      Carry.code.nextAll s.inner = Carry.code.nextAll inner ∧
      (Carry.code.StaysOpen s.depth s.inner → Carry.code.StaysOpen 1 inner) := by
  obtain ⟨-, hnetAll, hnextAll, -⟩ := Carry.of_scan 1 (by decide)
    (scan_settings hsource hversion number s)
  rw [hinner, hdepth, Carry.netAll_append, Carry.nextAll_append, Carry.staysOpen_append, hnetAll,
    hnextAll, Int.zero_add, Int.add_zero]
  exact ⟨rfl, rfl, And.right⟩

include hs in
/-- A declaration that is replaced by its own lines is regular, and has the written source. -/
theorem isRegular_of_lines_eq (h : s.lines = (s.block number).render source version) :
    (s.block number).IsRegular ∧ (s.block number).source = some source := by
  obtain ⟨hinner, -⟩ := eq_rewritten_of_lines_eq h
  have hplain := attribute?_of_lines_eq hs hdepth hsource hversion h hinner
  obtain ⟨hread, hbody⟩ := block_eq_of_plain hdepth hsource hversion hinner hplain
  have hblank := isBlankText_code_of_body_eq hbody
  rw [Entry.codeIntakes, if_pos hblank, List.map_nil, List.append_nil] at hbody
  rw [← hbody] at hinner hplain
  obtain ⟨c, ms, hcut⟩ := exists_closing hs hdepth
  obtain ⟨hcarry, hclosing⟩ := hcut.of_blank hblank
  obtain ⟨hnetAll, hnextAll, hopen⟩ := scan_inner_of_eq hdepth hsource hversion hinner
  change s.depth + Carry.code.netAll s.inner = 1 at hclosing
  change Carry.code.nextAll s.inner = .code at hcarry
  constructor
  · constructor
    · exact header_eq_block hs number
    · rw [header_block]
      exact hdepth
    · apply Carry.isBody_of_plain (hopen hs.staysOpen)
      intro e he
      apply hplain
      exact List.mem_append_left _ (List.mem_map_of_mem he)
    · omega
    · rw [← hnextAll, hcarry]
    · exact trailer_block_spec hs hdepth number
  · exact hread

end Written

end Span

end SourceSwitch
