import SourceSwitch.Proofs.Block.Rendering
import SourceSwitch.Proofs.Rewrite.Splice

namespace SourceSwitch

open Text (Ending Fits IsLine endsLine)

namespace ModuleBlock

def covers (b : ModuleBlock) (index : Nat) : Bool := b.firstIndex ≤ index ∧ index < b.endLine

end ModuleBlock

/-- What stands in the place of one line, by its index. The new lines of a declaration stand in the
place of its first one. -/
def replacementAt (new : ModuleBlock → Option (List Text)) (bs : List ModuleBlock) :
    Text × Nat → List Text
  | (l, index) =>
    match bs.find? (·.covers index) with
    | none => [l]
    | some b =>
      match new b with
      | none => [l]
      | some ls => if index = b.firstIndex then ls else []

def overlay (new : ModuleBlock → Option (List Text)) (bs : List ModuleBlock) (lines : List Text) :
    List Text := lines.zipIdx.flatMap (replacementAt new bs)

section Order

variable {number : Nat} {ps : List Piece} {b : ModuleBlock}

theorem le_startLine_of_mem_blocks (h : b ∈ Piece.blocks number ps) : number ≤ b.startLine := by
  obtain ⟨v, s, w, -, rfl⟩ := exists_of_mem_blocks h
  simp

theorem endLine_le_of_mem_blocks (h : b ∈ Piece.blocks number ps) :
    b.startLine < b.endLine ∧ b.endLine < number + (ps.flatMap Piece.lines).length := by
  obtain ⟨v, s, w, rfl, rfl⟩ := exists_of_mem_blocks h
  simp [Piece.lines]
  omega

theorem pairwise_blocks (number : Nat) (ps : List Piece) :
    (Piece.blocks number ps).Pairwise fun b b' => b.endLine < b'.startLine := by
  induction ps generalizing number with
  | nil => exact .nil
  | cons p ps ih =>
    cases p with
    | line l => exact ih _
    | block s =>
      refine List.pairwise_cons.mpr ⟨fun b hb => ?_, ih _⟩
      have hstart := le_startLine_of_mem_blocks hb
      rw [Span.endLine_block]
      rw [Span.length_lines] at hstart
      omega

end Order

section Overlay

variable {new : ModuleBlock → Option (List Text)} {earlier later : List ModuleBlock} {o : Nat}

theorem replacementAt_between (hearlier : ∀ b ∈ earlier, b.endLine ≤ o)
    (hlater : ∀ b ∈ later, o + 1 < b.startLine) (l : Text) :
    replacementAt new (earlier ++ later) (l, o) = [l] := by
  have hnone : (earlier ++ later).find? (·.covers o) = none := by
    rw [List.find?_eq_none]
    intro b hb
    rcases List.mem_append.mp hb with hb | hb
    · have h := hearlier b hb
      simp [ModuleBlock.covers]
      omega
    · have h := hlater b hb
      simp [ModuleBlock.covers, ModuleBlock.firstIndex]
      omega
  simp only [replacementAt, hnone]

theorem replacementAt_within {b : ModuleBlock} {i : Nat} (hearlier : ∀ b ∈ earlier, b.endLine ≤ i)
    (hb : b.firstIndex ≤ i ∧ i < b.endLine) (l : Text) :
    replacementAt new (earlier ++ b :: later) (l, i) = match new b with
      | none => [l]
      | some ls => if i = b.firstIndex then ls else [] := by
  have hnone : earlier.find? (·.covers i) = none := by
    rw [List.find?_eq_none]
    intro b' hb'
    have h := hearlier b' hb'
    simp [ModuleBlock.covers]
    omega
  have hsome : (earlier ++ b :: later).find? (·.covers i) = some b := by
    rw [List.find?_append, hnone, Option.none_or, List.find?_cons_of_pos]
    simpa [ModuleBlock.covers] using hb
  simp only [replacementAt, hsome]

theorem flatMap_replacementAt_span (hearlier : ∀ b ∈ earlier, b.endLine ≤ o) (s : Span) :
    (s.lines.zipIdx o).flatMap (replacementAt new (earlier ++ s.block (1 + o) :: later))
      = (new (s.block (1 + o))).getD s.lines := by
  have hfirst : (s.block (1 + o)).firstIndex = o := by simp [ModuleBlock.firstIndex]
  have hat (l : Text) (i : Nat) (h : (l, i) ∈ s.lines.zipIdx o) :
      replacementAt new (earlier ++ s.block (1 + o) :: later) (l, i)
        = match new (s.block (1 + o)) with
          | none => [l]
          | some ls => if i = o then ls else [] := by
    obtain ⟨hle, hlt, -⟩ := List.mem_zipIdx h
    rw [Span.length_lines] at hlt
    rw [replacementAt_within (fun b hb => (hearlier b hb).trans hle) (b := s.block (1 + o))
      ⟨by omega, by rw [Span.endLine_block]; omega⟩ l, hfirst]
  have hflat := List.flatMap_congr (l := s.lines.zipIdx o) fun x hx => hat x.1 x.2 hx
  apply hflat.trans
  cases new (s.block (1 + o)) with
  | none =>
    rw [← List.map_eq_flatMap]
    exact List.zipIdx_map_fst _ _
  | some ls =>
    have hrest : ((s.inner ++ [s.last]).zipIdx (o + 1)).flatMap (fun x =>
        if x.2 = o then ls else [])
        = [] := by
      rw [List.flatMap_eq_nil_iff]
      intro x hx
      obtain ⟨hle, -, -⟩ := List.mem_zipIdx (x := x.1) (i := x.2) hx
      have hne : x.2 ≠ o := by omega
      exact if_neg hne
    rw [Span.lines, List.cons_append, List.zipIdx_cons, List.flatMap_cons]
    simp only [hrest, if_true, List.append_nil, Option.getD_some]

variable (new) in
/-- Replacing index by index is replacing span by span. -/
theorem overlay_blocks (hearlier : ∀ b ∈ earlier, b.endLine ≤ o) (ps : List Piece) :
    ((ps.flatMap Piece.lines).zipIdx o).flatMap
        (replacementAt new (earlier ++ Piece.blocks (1 + o) ps))
      = Piece.replaced new (1 + o) ps := by
  -- Spans that have been passed are looked up first, but cover no index from here on.
  induction ps generalizing o earlier with
  | nil => rfl
  | cons p ps ih =>
    cases p with
    | line l =>
      have hlater : ∀ b ∈ Piece.blocks (1 + o + 1) ps, o + 1 < b.startLine := by
        intro b hb
        have h := le_startLine_of_mem_blocks hb
        omega
      have h := ih (o := o + 1) fun b hb => (hearlier b hb).trans (Nat.le_succ o)
      rw [← Nat.add_assoc] at h
      rw [List.flatMap_cons, Piece.lines, List.singleton_append, List.zipIdx_cons,
        List.flatMap_cons, Piece.blocks, replacementAt_between hearlier hlater, h]
      rfl
    | block s =>
      have hends : ∀ b ∈ earlier ++ [s.block (1 + o)], b.endLine ≤ o + s.lines.length := by
        intro b hb
        rcases List.mem_append.mp hb with hb | hb
        · exact (hearlier b hb).trans (Nat.le_add_right _ _)
        · obtain rfl := List.mem_singleton.mp hb
          rw [Span.endLine_block, Span.length_lines]
          omega
      have h := ih hends
      rw [← Nat.add_assoc, List.append_assoc, List.singleton_append] at h
      rw [List.flatMap_cons, Piece.lines, List.zipIdx_append, List.flatMap_append, Piece.blocks,
        flatMap_replacementAt_span hearlier, h]
      rfl

variable (new) in
theorem overlay_readBlocks {lines : List Text} {ps : List Piece} (hps : Splits .code lines ps) :
    overlay new (readBlocks lines) lines = Piece.replaced new 1 ps := by
  have hnone : ∀ b ∈ ([] : List ModuleBlock), b.endLine ≤ 0 := by
    intro b hb
    exact absurd hb List.not_mem_nil
  have hoverlay := overlay_blocks new hnone ps
  rw [hps.lines_eq] at hoverlay
  rw [hps.readBlocks_eq]
  exact hoverlay

end Overlay

section Joining

variable {e : Ending} {closed : Bool} {ps : List Piece} {number : Nat}

theorem Span.isJoinable_of_fits {s : Span} {w : List Text} (h : Fits e closed (s.lines ++ w)) :
    s.IsJoinable e := by
  have hlines : s.lines ++ w = s.header :: s.inner ++ s.last :: w := by simp [Span.lines]
  rw [hlines] at h
  obtain ⟨hfront, hback⟩ := h.of_append (by simp)
  exact ⟨hfront _ List.mem_cons_self, fun l hl => hfront l (List.mem_cons_of_mem _ hl),
    hback.newline_not_mem List.mem_cons_self⟩

/-- Lines that can take the place of a span: all can be joined, and the last is not empty. -/
def IsReplacement (e : Ending) (ls : List Text) : Prop :=
  ∃ v l, ls = v ++ [l] ∧ l ≠ [] ∧ IsLine e l ∧ ∀ l ∈ v, IsLine e l

theorem IsReplacement.fits {ls : List Text} (h : IsReplacement e ls) : Fits e closed ls := by
  obtain ⟨v, l, rfl, hne, hl, hv⟩ := h
  exact .of_isLine hv hl hne

theorem IsReplacement.isLine {ls : List Text} (h : IsReplacement e ls) :
    ∀ l ∈ ls, IsLine e l := by
  obtain ⟨v, l, rfl, -, hl, hv⟩ := h
  intro l' hl'
  rcases List.mem_append.mp hl' with hl' | hl'
  · exact hv l' hl'
  · obtain rfl := List.mem_singleton.mp hl'
    exact hl

theorem Piece.replaced_ne_nil {new : ModuleBlock → Option (List Text)}
    (hne : ∀ b, ∀ ls ∈ new b, ls ≠ []) (hps : ps ≠ []) : Piece.replaced new number ps ≠ [] := by
  cases ps with
  | nil => exact absurd rfl hps
  | cons p ps =>
    cases p with
    | line l => exact List.cons_ne_nil _ _
    | block s =>
      rw [Piece.replaced]
      refine List.append_ne_nil_of_left_ne_nil ?_ _
      cases h : new (s.block number) with
      | none => simp [Span.lines]
      | some ls => exact hne _ ls h

theorem fits_replaced {new : ModuleBlock → Option (List Text)}
    (hne : ∀ b, ∀ ls ∈ new b, ls ≠ [])
    (hnew : ∀ (s : Span) number, s.IsJoinable e → ∀ ls ∈ new (s.block number), IsReplacement e ls)
    (hlines : Fits e closed (ps.flatMap Piece.lines)) :
    Fits e closed (Piece.replaced new number ps) := by
  induction ps generalizing number with
  | nil => exact hlines
  | cons p ps ih =>
    rw [List.flatMap_cons] at hlines
    have hstart {x : List Text} (hx : x = p.lines ∨ IsReplacement e x) (number : Nat) :
        Fits e closed (x ++ Piece.replaced new number ps) := by
      by_cases hps : ps = []
      · subst hps
        rw [Piece.replaced, List.append_nil]
        rw [List.flatMap_nil, List.append_nil] at hlines
        rcases hx with rfl | hx
        · exact hlines
        · exact hx.fits
      · have hrest : ps.flatMap Piece.lines ≠ [] := by
          obtain ⟨p', ps', rfl⟩ := List.exists_cons_of_ne_nil hps
          cases p' <;> simp [Piece.lines, Span.lines]
        obtain ⟨hfront, hback⟩ := hlines.of_append hrest
        refine .append ?_ (Piece.replaced_ne_nil hne hps) (ih hback)
        rcases hx with rfl | hx
        · exact hfront
        · exact hx.isLine
    cases p with
    | line l => exact hstart (.inl rfl) _
    | block s =>
      rw [Piece.replaced]
      refine hstart ?_ _
      cases h : new (s.block number) with
      | none => exact .inl rfl
      | some ls => exact .inr (hnew s number (Span.isJoinable_of_fits hlines) ls h)

end Joining

section Transform

variable {σ : Type} {ask : Lookup σ} {reply : Coordinates → Reply}
  {replies : ModuleBlock → Coordinates → Reply} {mode : Mode} {content : Text} {s : σ}
  {ps : List Piece}

theorem replacement?_ne_nil (b : ModuleBlock) : ∀ ls ∈ mode.replacement? reply b, ls ≠ [] := by
  intro ls hls
  obtain ⟨-, version, -, rfl⟩ := Mode.replacement?_eq_some_iff.mp hls
  exact List.cons_ne_nil _ _

theorem isReplacement_replacement? {e : Ending} {span : Span} {number : Nat} {ls : List Text}
    (hmode : ∀ t ∈ mode.written, '\n' ∉ t) (hs : span.IsJoinable e)
    (h : mode.replacement? reply (span.block number) = some ls) : IsReplacement e ls := by
  obtain ⟨-, version, hversion, rfl⟩ := Mode.replacement?_eq_some_iff.mp h
  have hsource : '\n' ∉ mode.newSource (span.block number) :=
    Mode.not_mem_newSource (by decide) hmode fun t ht => Span.newline_not_mem_source hs ht
  have hversion' : ∀ v ∈ version, '\n' ∉ v := by
    rintro v rfl
    exact Mode.not_mem_newVersion (by decide) hversion
  rw [ModuleBlock.render_eq]
  refine ⟨_, _, rfl, Span.footer_ne_nil _, Span.isLine_footer hs, fun l hl => ?_⟩
  exact Span.isLine_of_mem_render hs hsource hversion' (List.mem_append_left _ hl)

def Transformation.ofEdits (content : Text) (edits : List Edit) : Transformation where
  content := joinLines (chosenEnding content) (endsLine content)
    (Edit.splice 0 (Text.lines content) edits)
  changed := edits.any Edit.isChange
  unresolved := edits.filterMap Edit.unresolved?
  events := edits.flatMap Edit.log

def editsOf (ask : Lookup σ) (mode : Mode) (content : Text) (s : σ) : List Edit :=
  (Edit.plan ask mode (Text.lines content) (readBlocks (Text.lines content)) s).1

def GetsReplies (ask : Lookup σ) (mode : Mode) (content : Text) (s : σ)
    (replies : ModuleBlock → Coordinates → Reply) : Prop :=
  editsOf ask mode content s = (readBlocks (Text.lines content)).map fun b =>
    Edit.of mode (replies b) (Text.lines content) b

theorem Lookup.IsConstant.getsReplies (h : ask.IsConstant reply) (mode : Mode) (content : Text)
    (s : σ) : GetsReplies ask mode content s fun _ => reply := Edit.plan_eq_map h mode _ _ s

theorem transform_eq (h : ask.IsConstant reply) (mode : Mode) (content : Text) (s : σ) :
    (transform ask mode content s).1 = .ofEdits content
      ((readBlocks (Text.lines content)).map (Edit.of mode reply (Text.lines content))) := by
  rw [← Edit.plan_eq_map h mode _ _ s]
  rfl

theorem splice_replaced {new : ModuleBlock → Option (List Text)} {lines : List Text}
    {es : List Edit}
    (hps : Splits .code lines ps) (hblocks : es.map (·.block) = readBlocks lines)
    (hes : ∀ e ∈ es, e.lines = (new e.block).getD (e.block.slice lines)) :
    Edit.splice 0 lines es = Piece.replaced new 1 ps := by
  have hlines : lines = [] ++ [] ++ ps.flatMap Piece.lines := hps.lines_eq.symm
  rw [hps.readBlocks_eq] at hblocks
  have hsplice := splice_edits hlines hblocks hes
  rw [List.nil_append, hps.lines_eq] at hsplice
  exact hsplice

theorem fits_replaced_lines {e : Ending} {closed : Bool} {lines : List Text}
    (hmode : ∀ t ∈ mode.written, '\n' ∉ t) (hps : Splits .code lines ps)
    (hlines : Fits e closed lines) :
    Fits e closed (Piece.replaced (fun b => mode.replacement? (replies b) b) 1 ps) := by
  apply fits_replaced
  · intro b
    exact replacement?_ne_nil b
  · intro span number hs ls hls
    exact isReplacement_replacement? hmode hs hls
  · rwa [hps.lines_eq]

theorem fits_transform (hmode : ∀ t ∈ mode.written, '\n' ∉ t)
    (hps : Splits .code (Text.lines content) ps) : Fits (endingOf content) (endsLine content)
      (Piece.replaced (fun b => mode.replacement? (replies b) b) 1 ps) :=
  fits_replaced_lines hmode hps (fits_lines content)

/-- A declaration whose lines are replaced by others. -/
def Mode.Changes (mode : Mode) (reply : Coordinates → Reply) (lines : List Text)
    (b : ModuleBlock) : Prop :=
  ∃ ls, mode.replacement? reply b = some ls ∧ ls ≠ b.slice lines

theorem Edit.isChange_of_iff (mode : Mode) (reply : Coordinates → Reply) (lines : List Text)
    (b : ModuleBlock) : (Edit.of mode reply lines b).isChange ↔ mode.Changes reply lines b := by
  have hbefore : (Edit.of mode reply lines b).before = b.slice lines := rfl
  rw [Edit.isChange, lines_of, hbefore, Mode.Changes]
  cases mode.replacement? reply b <;> simp

namespace GetsReplies

theorem blocks_eq (h : GetsReplies ask mode content s replies) :
    (editsOf ask mode content s).map (·.block) = readBlocks (Text.lines content) := by
  rw [show editsOf ask mode content s = _ from h, List.map_map]
  exact List.map_id _

theorem content_eq (h : GetsReplies ask mode content s replies)
    (hps : Splits .code (Text.lines content) ps) : (transform ask mode content s).1.content
      = joinLines (endingOf content).text (endsLine content)
          (Piece.replaced (fun b => mode.replacement? (replies b) b) 1 ps) := by
  rw [← chosenEnding_eq, ← splice_replaced hps h.blocks_eq]
  · rfl
  · intro e he
    rw [show editsOf ask mode content s = _ from h] at he
    obtain ⟨b, -, rfl⟩ := List.mem_map.mp he
    exact Edit.lines_of mode (replies b) _ b

theorem lines_eq (h : GetsReplies ask mode content s replies)
    (hmode : ∀ t ∈ mode.written, '\n' ∉ t) : Text.lines (transform ask mode content s).1.content
      = overlay (fun b => mode.replacement? (replies b) b) (readBlocks (Text.lines content))
          (Text.lines content) := by
  obtain ⟨ps, hps⟩ := exists_splits .code (Text.lines content)
  rw [h.content_eq hps, lines_joinLines (endingOf_ne_none content) (fits_transform hmode hps),
    overlay_readBlocks _ hps]

theorem endsLine_eq (h : GetsReplies ask mode content s replies)
    (hmode : ∀ t ∈ mode.written, '\n' ∉ t) :
    endsLine (transform ask mode content s).1.content = endsLine content := by
  obtain ⟨ps, hps⟩ := exists_splits .code (Text.lines content)
  rw [h.content_eq hps, endsLine_joinLines (endingOf_ne_none content) (fits_transform hmode hps)]

theorem changed_iff (h : GetsReplies ask mode content s replies) :
    (transform ask mode content s).1.changed ↔
      ∃ b ∈ readBlocks (Text.lines content), mode.Changes (replies b) (Text.lines content) b := by
  change (editsOf ask mode content s).any Edit.isChange ↔ _
  rw [show editsOf ask mode content s = _ from h, List.any_map, List.any_eq_true]
  simp only [Function.comp_apply, Edit.isChange_of_iff]

theorem unresolved_eq (h : GetsReplies ask mode content s replies) :
    (transform ask mode content s).1.unresolved
      = (readBlocks (Text.lines content)).filterMap fun b => mode.unresolved? (replies b) b := by
  change (editsOf ask mode content s).filterMap Edit.unresolved? = _
  rw [show editsOf ask mode content s = _ from h, List.filterMap_map]
  exact congrArg (List.filterMap · _) (funext fun b => Edit.unresolved?_of mode (replies b) _ b)

end GetsReplies

theorem content_transform (mode : Mode) (h : ask.IsConstant reply) (s : σ)
    (hps : Splits .code (Text.lines content) ps) : (transform ask mode content s).1.content
      = joinLines (endingOf content).text (endsLine content)
          (Piece.replaced (mode.replacement? reply) 1 ps) :=
  (h.getsReplies mode content s).content_eq hps

theorem changed_transform_iff (h : ask.IsConstant reply) (s : σ) :
    (transform ask mode content s).1.changed ↔
      ∃ b ∈ readBlocks (Text.lines content), mode.Changes reply (Text.lines content) b :=
  (h.getsReplies mode content s).changed_iff

theorem unresolved_transform (h : ask.IsConstant reply) (s : σ) :
    (transform ask mode content s).1.unresolved
      = (readBlocks (Text.lines content)).filterMap (mode.unresolved? reply) :=
  (h.getsReplies mode content s).unresolved_eq

def callsOf (ask : Lookup σ) (mode : Mode) (content : Text) (s : σ) : List Call :=
  (transform ask.logged mode content ([], s)).2.1

theorem pairwise_startLine_readBlocks (lines : List Text) :
    (readBlocks lines).Pairwise fun b b' => b.startLine < b'.startLine := by
  obtain ⟨ps, hps⟩ := exists_splits .code lines
  rw [hps.readBlocks_eq]
  apply (pairwise_blocks 1 ps).imp_of_mem
  intro b b' hb _ hlt
  exact (endLine_le_of_mem_blocks hb).1.trans hlt

theorem nodup_readBlocks (lines : List Text) : (readBlocks lines).Nodup := by
  apply (pairwise_startLine_readBlocks lines).imp
  rintro b _ hlt rfl
  exact hlt.false

theorem exists_getsReplies (ask : Lookup σ) (mode : Mode) (content : Text) (s : σ) :
    ∃ replies : ModuleBlock → Reply, GetsReplies ask mode content s (fun b _ => replies b) ∧
      callsOf ask mode content s = (readBlocks (Text.lines content)).filterMap fun b =>
        (mode.asks? b).map (⟨·, replies b⟩) := by
  obtain ⟨replies, hedits, hcalls⟩ := Edit.exists_plan_logged ask mode (Text.lines content)
    (nodup_readBlocks (Text.lines content)) [] s
  obtain ⟨calls, hlogged, -⟩ := Edit.plan_logged ask mode (Text.lines content)
    (readBlocks (Text.lines content)) [] s
  rw [hlogged] at hedits
  exact ⟨replies, hedits, hcalls⟩

theorem blocks_editsOf (ask : Lookup σ) (mode : Mode) (content : Text) (s : σ) :
    (editsOf ask mode content s).map (·.block) = readBlocks (Text.lines content) := by
  obtain ⟨replies, hreplies, -⟩ := exists_getsReplies ask mode content s
  exact hreplies.blocks_eq

/-- Whatever the registry does, it could always have given the reply that led to an edit. -/
theorem exists_of_mem_editsOf {e : Edit} (he : e ∈ editsOf ask mode content s) :
    ∃ reply b, e = Edit.of mode reply (Text.lines content) b := by
  obtain ⟨replies, hreplies, -⟩ := exists_getsReplies ask mode content s
  rw [show editsOf ask mode content s = _ from hreplies] at he
  obtain ⟨b, -, rfl⟩ := List.mem_map.mp he
  exact ⟨_, b, rfl⟩

theorem answers_callsOf (ask : Lookup σ) (mode : Mode) (content : Text) (s : σ) :
    ask.Answers s (callsOf ask mode content s) (transform ask mode content s).2 := by
  obtain ⟨calls, hlogged, hanswers⟩ := Edit.plan_logged ask mode (Text.lines content)
    (readBlocks (Text.lines content)) [] s
  have hcalls : callsOf ask mode content s = calls :=
    congrArg (·.2.1) hlogged
  rw [hcalls]
  exact hanswers

theorem pairwise_line_unresolved (bs : List ModuleBlock)
    (hbs : bs.Pairwise fun b b' => b.startLine < b'.startLine) :
    ((bs.filterMap fun b => mode.unresolved? (replies b) b).map (·.line)).Pairwise (· < ·) := by
  rw [List.pairwise_map, List.pairwise_filterMap]
  apply hbs.imp
  intro b b' hlt entry hentry entry' hentry'
  rw [Mode.line_of_unresolved? hentry, Mode.line_of_unresolved? hentry']
  exact hlt

end Transform

/-- What a rewriting makes of a content and what it asks for, told by declaration and the reply that
each declaration got. -/
structure IsIsolated {σ : Type} (ask : Lookup σ) (mode : Mode) (content : Text) (s : σ)
    (replies : ModuleBlock → Reply) : Prop where
  bounds : ∀ b ∈ readBlocks (Text.lines content),
    b.firstIndex < b.endLine ∧ b.endLine ≤ (Text.lines content).length
  ordered : (readBlocks (Text.lines content)).Pairwise fun b b' => b.endLine ≤ b'.firstIndex
  lines_eq : Text.lines (transform ask mode content s).1.content
    = overlay (fun b => mode.replacement? (fun _ => replies b) b) (readBlocks (Text.lines content))
        (Text.lines content)
  unresolved_eq : (transform ask mode content s).1.unresolved
    = (readBlocks (Text.lines content)).filterMap fun b => mode.unresolved? (fun _ => replies b) b
  unresolved_increasing :
    ((transform ask mode content s).1.unresolved.map (·.line)).Pairwise (· < ·)
  changed_iff : (transform ask mode content s).1.changed ↔
    ∃ b ∈ readBlocks (Text.lines content),
      mode.Changes (fun _ => replies b) (Text.lines content) b
  endsLine_eq : endsLine (transform ask mode content s).1.content = endsLine content
  /-- One call for each declaration that asks, and the registry's state is that behind them. -/
  calls_eq : callsOf ask mode content s = (readBlocks (Text.lines content)).filterMap fun b =>
    (mode.asks? b).map (⟨·, replies b⟩)
  answers : ask.Answers s (callsOf ask mode content s) (transform ask mode content s).2
  calls_toTree : ∀ expectedBase, mode = .toTree expectedBase → callsOf ask mode content s = []

/-- Whatever the registry does, each declaration that asks gets the reply to one call, in their
order. A rewriting replaces the declarations that qualify and resolve, reports those that do not
resolve, and leaves all other lines as they are. -/
theorem transform_isIsolated {σ : Type} (ask : Lookup σ) {mode : Mode}
    (hmode : ∀ t ∈ mode.written, '\n' ∉ t) (content : Text) (s : σ) :
    ∃ replies, IsIsolated ask mode content s replies := by
  obtain ⟨replies, hreplies, hcalls⟩ := exists_getsReplies ask mode content s
  obtain ⟨ps, hps⟩ := exists_splits .code (Text.lines content)
  have hblocks := hps.readBlocks_eq
  refine ⟨replies, ?_, ?_, hreplies.lines_eq hmode, hreplies.unresolved_eq, ?_,
    hreplies.changed_iff, hreplies.endsLine_eq hmode, hcalls,
    answers_callsOf ask mode content s, ?_⟩
  · intro b hb
    rw [hblocks] at hb
    obtain ⟨hlt, hle⟩ := endLine_le_of_mem_blocks hb
    rw [hps.lines_eq] at hle
    exact ⟨by rw [ModuleBlock.firstIndex]; omega, by omega⟩
  · rw [hblocks]
    apply (pairwise_blocks 1 ps).imp
    intro b b' hlt
    rw [ModuleBlock.firstIndex]
    omega
  · rw [hreplies.unresolved_eq]
    exact pairwise_line_unresolved _ (pairwise_startLine_readBlocks _)
  · rintro expectedBase rfl
    rw [hcalls, List.filterMap_eq_nil_iff]
    intro b _
    rw [Option.map_eq_none_iff, Mode.asks?]
    split <;> rfl

def twoModules : Text :=
  joinLines "\r\n" false [r#"module "vnet" {"#, r#"  source = "acme/vnet/azure""#, r"}",
    r#"module "dns" {"#, r#"  source = "acme/dns/azure//zone" # shared"#, r"}"]

def vnetOnly : Coordinates → Reply := fun c =>
  if c.name = ("vnet" : Text) then ⟨.ok ⟨"2.1.0", 2⟩, []⟩ else ⟨.error (.notFound c.text), []⟩

/-- A registry that fails the first call, and then answers. -/
def recovering : Lookup Bool := fun _ failed =>
  (⟨if failed then .ok ⟨"2.1.0", 2⟩ else .error (.network ⟨"timed out"⟩), []⟩, true)

theorem transform_isIsolated_recovering :
    let mode := Mode.refresh ["acme/"] "registry.terraform.io"
    let t := (transform recovering mode twoModules false).1
    (∀ u ∈ mode.written, '\n' ∉ u) ∧
      (∃ replies, IsIsolated recovering mode twoModules false replies) ∧
      t.changed ∧ t.unresolved.map (·.name) = ["vnet".toList] ∧
      (callsOf recovering mode twoModules false).map (·.reply.answer)
        = [.error (.network ⟨"timed out"⟩), .ok ⟨"2.1.0", 2⟩] := by
  intro mode t
  have hmode : ∀ u ∈ mode.written, '\n' ∉ u := by decide
  refine ⟨hmode, transform_isIsolated recovering hmode twoModules false, ?_⟩
  decide +kernel

end SourceSwitch
