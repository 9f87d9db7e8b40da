import SourceSwitch.Proofs.Rewrite.Isolation

namespace SourceSwitch

open Text (Ending IsUniform endsLine)

namespace Mode

variable {mode : Mode} {b b' : ModuleBlock} {reply : Coordinates → Reply}

theorem reference?_congr (h : b'.source = b.source) : b'.reference? = b.reference? := by
  rw [ModuleBlock.reference?, h]
  rfl

theorem decision_congr (mode : Mode) (h : b'.source = b.source) :
    mode.qualifies b' = mode.qualifies b ∧ mode.newSource b' = mode.newSource b ∧
      mode.target b' = mode.target b := by
  have href := reference?_congr h
  cases mode <;> simp only [qualifies, newSource, target, baseOf, href, h, and_self]

theorem newVersion_congr (h : mode.target b' = mode.target b) :
    mode.newVersion reply b' = mode.newVersion reply b := by
  rw [newVersion, newVersion, h]

theorem targetText_congr (mode : Mode) (h : b'.source = b.source) :
    mode.targetText b' = mode.targetText b := by
  rw [targetText, targetText, (decision_congr mode h).2.2, baseOf, baseOf, reference?_congr h]

theorem replacement?_congr (hsource : b'.source = b.source)
    (hrender : ∀ source version, b'.render source version = b.render source version) :
    mode.replacement? reply b' = mode.replacement? reply b := by
  obtain ⟨hq, hnew, htarget⟩ := decision_congr mode hsource
  rw [replacement?, replacement?, hq, newVersion_congr htarget, hnew]
  simp only [hrender]

end Mode

def Unresolved.shift (k : Nat) (entry : Unresolved) : Unresolved :=
  { entry with line := entry.line + k }

theorem Mode.unresolved?_shift (mode : Mode) (reply : Coordinates → Reply) (b : ModuleBlock)
    (k : Nat) : mode.unresolved? reply (b.shift k) = (mode.unresolved? reply b).map (.shift k) := by
  have hsource : (b.shift k).source = b.source := rfl
  obtain ⟨hq, -, htarget⟩ := decision_congr mode hsource
  rw [unresolved?, unresolved?, hq, newVersion_congr htarget, targetText_congr mode hsource]
  by_cases h : mode.qualifies b
  · rw [if_pos h, if_pos h]
    cases mode.newVersion reply b <;> rfl
  · rw [if_neg h, if_neg h]
    rfl

namespace Span

variable {s : Span} {mode : Mode} {reply : Coordinates → Reply}

theorem source_block_eq (number m : Nat) (s : Span) :
    (s.block number).source = (s.block m).source := by
  rw [← Nat.zero_add number, ← Nat.zero_add m, block_add, block_add]
  rfl

theorem render_block_eq (number m : Nat) (s : Span) (source : Text) (version : Option Text) :
    (s.block number).render source version = (s.block m).render source version := by
  rw [← Nat.zero_add number, ← Nat.zero_add m, block_add, block_add]
  rfl

theorem exists_of_replacement? (hmode : ∀ t ∈ mode.written, '"' ∉ t) {number : Nat} {ls : List Text}
    (h : mode.replacement? reply (s.block number) = some ls) :
    mode.qualifies (s.block number) ∧ ∃ version,
      mode.newVersion reply (s.block number) = .ok version ∧
      ls = (s.block number).render (mode.newSource (s.block number)) version ∧
      '"' ∉ mode.newSource (s.block number) ∧ ∀ v ∈ version, '"' ∉ v := by
  obtain ⟨hq, version, hversion, rfl⟩ := Mode.replacement?_eq_some_iff.mp h
  refine ⟨hq, version, hversion, rfl, ?_, ?_⟩
  · apply Mode.not_mem_newSource (by decide) hmode
    intro t ht
    exact (source_block_spec ht).1
  · rintro v rfl
    exact Mode.not_mem_newVersion (by decide) hversion

theorem replacement?_block_eq (number m : Nat) (s : Span) :
    mode.replacement? reply (s.block number) = mode.replacement? reply (s.block m) :=
  Mode.replacement?_congr (source_block_eq number m s) (render_block_eq number m s)

theorem unresolved?_block_add (number k : Nat) (s : Span) :
    mode.unresolved? reply (s.block (number + k))
      = (mode.unresolved? reply (s.block number)).map (.shift k) := by
  rw [block_add, Mode.unresolved?_shift]

/-- Wherever it stands, the declaration is replaced by its own lines, if at all. -/
def IsFixed (mode : Mode) (reply : Coordinates → Reply) (s : Span) : Prop :=
  ∀ number, ∀ ls ∈ mode.replacement? reply (s.block number), ls = s.lines

end Span

section Pieces

variable {mode : Mode} {reply : Coordinates → Reply} {ps : List Piece}

theorem Piece.replaced_eq (number m : Nat) (ps : List Piece) :
    replaced (mode.replacement? reply) number ps = replaced (mode.replacement? reply) m ps := by
  induction ps generalizing number m with
  | nil => rfl
  | cons p ps ih =>
    cases p with
    | line l => exact congrArg (l :: ·) (ih _ _)
    | block s => rw [replaced, replaced, s.replacement?_block_eq number m, ih]

theorem Piece.replaced_of_isFixed (h : ∀ s, .block s ∈ ps → s.IsFixed mode reply) (number : Nat) :
    replaced (mode.replacement? reply) number ps = ps.flatMap Piece.lines := by
  induction ps generalizing number with
  | nil => rfl
  | cons p ps ih =>
    have ih := ih fun s hs => h s (List.mem_cons_of_mem _ hs)
    cases p with
    | line l => exact congrArg (l :: ·) (ih _)
    | block s =>
      rw [replaced, ih, List.flatMap_cons, Piece.lines]
      cases hnew : mode.replacement? reply (s.block number) with
      | none => rfl
      | some ls => rw [Option.getD_some, h s List.mem_cons_self number ls hnew]

theorem exists_block_of_mem {s : Span} (h : .block s ∈ ps) (number : Nat) : ∃ v w,
    ps.flatMap Piece.lines = v ++ s.lines ++ w ∧
      s.block (number + v.length) ∈ Piece.blocks number ps := by
  induction ps generalizing number with
  | nil => cases h
  | cons p ps ih =>
    rw [List.flatMap_cons]
    rcases List.mem_cons.mp h with rfl | h
    · exact ⟨[], ps.flatMap Piece.lines, rfl, List.mem_cons_self⟩
    · obtain ⟨v, w, hlines, hblock⟩ := ih h (number + p.lines.length)
      refine ⟨p.lines ++ v, w, by simp [hlines], ?_⟩
      rw [List.length_append, ← Nat.add_assoc]
      cases p with
      | line l => exact hblock
      | block s' => exact List.mem_cons_of_mem _ hblock

theorem Splits.source_block {lines : List Text} {P : Option Text → Prop}
    (hps : Splits .code lines ps) (h : ∀ b ∈ readBlocks lines, P b.source) {s : Span}
    (hs : .block s ∈ ps) (number : Nat) : P (s.block number).source := by
  obtain ⟨v, w, -, hblock⟩ := exists_block_of_mem hs 1
  rw [← hps.readBlocks_eq] at hblock
  rw [s.source_block_eq number (1 + v.length)]
  exact h _ hblock

inductive Piece.Related (R : Span → Span → Prop) : Piece → Piece → Prop where
  | line (l : Text) : Related R (.line l) (.line l)
  | block {s s' : Span} : R s s' → Related R (.block s) (.block s')

theorem Piece.related_map_line (R : Span → Span → Prop) (ls : List Text) :
    List.Forall₂ (Related R) (ls.map .line) (ls.map .line) := by
  induction ls with
  | nil => exact .nil
  | cons l ls ih => exact .cons (.line l) ih

/-- Replaced lines fall into pieces again if each span has a counterpart with the same carry. -/
theorem Splits.exists_related {carry : Bracket.Carry} {lines : List Text}
    {new : ModuleBlock → Option (List Text)} {R : Span → Span → Prop} (h : Splits carry lines ps)
    (hnew : ∀ s, .block s ∈ ps → ∀ number, ∃ s' : Span, s'.IsComplete ∧ s'.carry = s.carry ∧
      (new (s.block number)).getD s.lines = s'.lines ∧ R s s') (number : Nat) :
    ∃ ps', Splits carry (Piece.replaced new number ps) ps' ∧
      List.Forall₂ (Piece.Related R) ps ps' := by
  induction h generalizing number with
  | nil => exact ⟨[], .nil, .nil⟩
  | line hl _ ih =>
    have hnew := fun s hs => hnew s (List.mem_cons_of_mem _ hs)
    obtain ⟨ps', hps', hrelated⟩ := ih hnew (number + 1)
    exact ⟨_, .line hl hps', .cons (.line _) hrelated⟩
  | @block s _ _ hs _ ih =>
    -- The new span hands on the same carry, so what is behind it falls into pieces as before.
    obtain ⟨s', hs', hcarry, hlines, hR⟩ := hnew s List.mem_cons_self number
    have hnew := fun s hs => hnew s (List.mem_cons_of_mem _ hs)
    obtain ⟨ps', hps', hrelated⟩ := ih hnew (number + s.lines.length)
    rw [← hcarry] at hps'
    rw [Piece.replaced, hlines]
    exact ⟨_, .block hs' hps', .cons (.block hR) hrelated⟩
  | unclosed hl hopen =>
    rw [Piece.replaced_map_line]
    exact ⟨_, .unclosed hl hopen, Piece.related_map_line R _⟩

theorem Piece.exists_of_related {R : Span → Span → Prop} {ps' : List Piece}
    (h : List.Forall₂ (Related R) ps ps') {s' : Span} (hs' : .block s' ∈ ps') : ∃ s, R s s' := by
  induction h with
  | nil => cases hs'
  | cons hp _ ih =>
    rcases List.mem_cons.mp hs' with rfl | hs'
    · cases hp with
      | block hR => exact ⟨_, hR⟩
    · exact ih hs'

variable {σ : Type} {ask : Lookup σ} {content : Text} {e : Ending}

theorem changed_transform_eq_false_iff (hask : ask.IsConstant reply) (state : σ)
    (hps : Splits .code (Text.lines content) ps) :
    (transform ask mode content state).1.changed = false ↔
      ∀ s, .block s ∈ ps → s.IsFixed mode reply := by
  rw [Bool.eq_false_iff, ne_eq, changed_transform_iff hask, hps.readBlocks_eq]
  constructor
  · intro h s hs number ls hls
    obtain ⟨v, w, hlines, hblock⟩ := exists_block_of_mem hs 1
    rw [hps.lines_eq] at hlines
    rw [Span.replacement?_block_eq number (1 + v.length)] at hls
    by_contra hne
    apply h
    refine ⟨_, hblock, ls, hls, ?_⟩
    rw [hlines, s.slice_block]
    exact hne
  · rintro h ⟨b, hb, ls, hls, hne⟩
    obtain ⟨ps₁, s, ps₂, rfl, rfl⟩ := exists_of_mem_blocks hb
    have hslice := s.slice_block (ps₁.flatMap Piece.lines) (ps₂.flatMap Piece.lines)
    have hlines := hps.lines_eq
    rw [List.flatMap_append, List.flatMap_cons, Piece.lines, ← List.append_assoc] at hlines
    rw [hlines] at hslice
    have hfixed := h s (List.mem_append_right _ List.mem_cons_self) _ ls hls
    exact hne (hfixed.trans hslice.symm)

theorem content_transform_of_isUniform (hask : ask.IsConstant reply) (he : e ≠ .none)
    (huniform : IsUniform e content) (hps : Splits .code (Text.lines content) ps) (s : σ) :
    (transform ask mode content s).1.content
      = joinLines e.text (endsLine content) (Piece.replaced (mode.replacement? reply) 1 ps) := by
  have hending := endingOf_joinLines he (fits_of_isUniform huniform)
  rw [joinLines_lines_of_isUniform huniform] at hending
  rw [content_transform mode hask s hps]
  rcases hending with hending | ⟨hclosed, hlength⟩
  · rw [hending]
  · rw [← hps.lines_eq] at hlength
    rw [hclosed, Piece.replaced_of_length_le_one _ _ hlength]
    exact joinLines_of_length_le_one hlength _ _

end Pieces

end SourceSwitch
