import SourceSwitch.Proofs.Block.Extent

namespace SourceSwitch

open SourceSwitch.Bracket (Carry Tally)

/-- A line, or the part of it in front of the closing bracket, as a declaration takes it. -/
structure Intake where
  depth : Int
  tally : Tally
  line : Text
deriving DecidableEq, Repr

namespace Intake

def IsDirect (i : Intake) : Prop := i.depth = 1 ∧ ¬ i.tally.verbatim

instance : DecidablePred IsDirect := fun i =>
  inferInstanceAs (Decidable (i.depth = 1 ∧ ¬ i.tally.verbatim))

def attribute? (i : Intake) : Option Attribute :=
  if i.IsDirect then Attribute.ofLine? i.line else none

/-- What goes into the body. -/
def share (i : Intake) : List Text :=
  match i.attribute? with
  | some (.source _) | some (.version _) =>
    (ModuleBlock.comment? i.line i.tally.commentAt).toList
  | some (.commentedSource _) | some .commentedVersion => []
  | none => [i.line]

def source? (i : Intake) : Option Text :=
  match i.attribute? with
  | some (.source value) => some value
  | _ => none

def into (b : ModuleBlock) (i : Intake) : ModuleBlock := b.take i.depth i.tally i.line

variable {i : Intake} {is : List Intake} {b : ModuleBlock}

theorem into_of_direct (h : i.IsDirect) (b : ModuleBlock) :
    into b i = b.absorb i.line i.tally.commentAt := if_pos h

theorem into_of_plain (h : i.attribute? = none) (b : ModuleBlock) : into b i = b.keep i.line := by
  by_cases hd : i.IsDirect
  · rw [attribute?, if_pos hd] at h
    rw [into_of_direct hd, ModuleBlock.absorb, h]
  · exact if_neg hd

theorem share_of_plain (h : i.attribute? = none) : i.share = [i.line] := by
  rw [share, h]

theorem direct_of_attribute? {a : Attribute} (h : i.attribute? = some a) :
    i.IsDirect ∧ Attribute.ofLine? i.line = some a := Option.ite_none_right_eq_some.mp h

theorem body_keepComment (line : Text) (at? : Option Nat) (b : ModuleBlock) :
    (b.keepComment line at?).body = b.body ++ (ModuleBlock.comment? line at?).toList := by
  unfold ModuleBlock.keepComment
  cases ModuleBlock.comment? line at? with
  | none => exact (List.append_nil _).symm
  | some tail => rfl

theorem source_keepComment (line : Text) (at? : Option Nat) (b : ModuleBlock) :
    (b.keepComment line at?).source = b.source := by
  unfold ModuleBlock.keepComment
  cases ModuleBlock.comment? line at? <;> rfl

theorem body_into (b : ModuleBlock) (i : Intake) : (into b i).body = b.body ++ i.share := by
  cases h : i.attribute? with
  | none => rw [into_of_plain h, share_of_plain h]; rfl
  | some a =>
    obtain ⟨hd, ha⟩ := direct_of_attribute? h
    rw [into_of_direct hd, ModuleBlock.absorb, ha, share, h]
    cases a with
    | source | version => exact body_keepComment _ _ _
    | commentedSource | commentedVersion => exact (List.append_nil _).symm

theorem source_into (b : ModuleBlock) (i : Intake) :
    (into b i).source = i.source?.or b.source := by
  cases h : i.attribute? with
  | none => rw [into_of_plain h, source?, h]; rfl
  | some a =>
    obtain ⟨hd, ha⟩ := direct_of_attribute? h
    rw [into_of_direct hd, ModuleBlock.absorb, ha, source?, h]
    cases a with
    | source | version => exact source_keepComment _ _ _
    | commentedSource | commentedVersion => rfl

theorem body_foldl_into (is : List Intake) (b : ModuleBlock) :
    (is.foldl into b).body = b.body ++ is.flatMap share := by
  induction is generalizing b with
  | nil => exact (List.append_nil _).symm
  | cons i is ih => rw [List.foldl_cons, ih, body_into, List.flatMap_cons, List.append_assoc]

theorem foldl_into_of_plain (h : ∀ i ∈ is, i.attribute? = none) (b : ModuleBlock) :
    is.foldl into b = { b with body := b.body ++ is.map line } := by
  induction is generalizing b with
  | nil => simp
  | cons i is ih =>
    rw [List.foldl_cons, into_of_plain (h i List.mem_cons_self),
      ih fun j hj => h j (List.mem_cons_of_mem i hj)]
    simp [ModuleBlock.keep]

theorem source?_eq_some_iff {value : Text} :
    i.source? = some value ↔ i.attribute? = some (.source value) := by
  unfold source?
  split <;> simp_all

theorem exists_of_source_foldl_into {value : Text} (h : (is.foldl into b).source = some value) :
    b.source = some value ∨ ∃ i ∈ is, i.attribute? = some (.source value) := by
  induction is generalizing b with
  | nil => exact .inl h
  | cons i is ih =>
    rcases ih h with h | ⟨j, hj, h⟩
    · rw [source_into, Option.or_eq_some_iff] at h
      rcases h with h | ⟨-, h⟩
      · exact .inr ⟨i, List.mem_cons_self, source?_eq_some_iff.mp h⟩
      · exact .inl h
    · exact .inr ⟨j, List.mem_cons_of_mem i hj, h⟩

end Intake

def ModuleBlock.shift (k : Nat) (b : ModuleBlock) : ModuleBlock :=
  { b with startLine := b.startLine + k, endLine := b.endLine + k }

namespace Intake

theorem shift_keepComment (line : Text) (at? : Option Nat) (k : Nat) (b : ModuleBlock) :
    (b.shift k).keepComment line at? = (b.keepComment line at?).shift k := by
  unfold ModuleBlock.keepComment
  cases ModuleBlock.comment? line at? <;> rfl

theorem shift_into (i : Intake) (k : Nat) (b : ModuleBlock) :
    into (b.shift k) i = (into b i).shift k := by
  cases h : i.attribute? with
  | none =>
    rw [into_of_plain h, into_of_plain h]
    rfl
  | some a =>
    obtain ⟨hd, ha⟩ := direct_of_attribute? h
    rw [into_of_direct hd, into_of_direct hd, ModuleBlock.absorb, ModuleBlock.absorb, ha]
    cases a with
    | source value => exact shift_keepComment _ _ k { b with source := some value }
    | version value => exact shift_keepComment _ _ k { b with version := some value }
    | commentedSource | commentedVersion => rfl

theorem shift_foldl_into (is : List Intake) (k : Nat) (b : ModuleBlock) :
    is.foldl into (b.shift k) = (is.foldl into b).shift k := by
  induction is generalizing b with
  | nil => rfl
  | cons i is ih => rw [List.foldl_cons, shift_into, ih, List.foldl_cons]

end Intake

namespace Entry

def intake (e : Entry) : Intake := ⟨e.depth, e.tally, e.line⟩

def code (e : Entry) : Text := (ModuleBlock.cut e.tally e.line).1

def rest (e : Entry) : Text := (ModuleBlock.cut e.tally e.line).2

/-- The closing line's part in front of the bracket, unless it is blank. -/
def codeIntakes (e : Entry) : List Intake :=
  if Text.isBlankText e.code then [] else [⟨e.depth, e.tally, Text.trimEnd e.code⟩]

variable {e : Entry}

theorem isDirect_intake_iff : e.intake.IsDirect ↔ e.IsDirect := by
  simp [Intake.IsDirect, IsDirect, intake, tally]

theorem exists_cut (h : e.tally.closedAt.isSome) : ∃ p c q ms,
    e.carry.Cut e.depth e.line p c q ms ∧ e.tally.closedAt = some (Text.byteLength p) ∧
      ModuleBlock.cut e.tally e.line = (p, q) := by
  obtain ⟨k, hk⟩ := Option.isSome_iff_exists.mp h
  obtain ⟨p, c, q, ms, hcut, rfl⟩ := Carry.exists_cut hk
  refine ⟨p, c, q, ms, hcut, hk, ?_⟩
  simp only [ModuleBlock.cut, hk, Option.bind_some]
  rw [hcut.line_eq, Text.splitAt?_append]
  rfl

section Unlocated

variable (h : e.tally.closedAt = none)

include h

theorem cut_of_closedAt_eq_none : ModuleBlock.cut e.tally e.line = ([], []) := by
  simp only [ModuleBlock.cut, h, Option.bind_none]

theorem code_of_closedAt_eq_none : e.code = [] := by
  rw [code, cut_of_closedAt_eq_none h]

theorem rest_of_closedAt_eq_none : e.rest = [] := by
  rw [rest, cut_of_closedAt_eq_none h]

theorem codeIntakes_of_closedAt_eq_none : e.codeIntakes = [] := by
  rw [codeIntakes, code_of_closedAt_eq_none h]
  rfl

end Unlocated

end Entry

namespace Span

def intakes (s : Span) : List Intake := s.entries.map Entry.intake ++ s.closing.codeIntakes

/-- The declaration that starts with the span's header, still without lines. -/
def start (number : Nat) (s : Span) : ModuleBlock :=
  .ofHeader number s.header ((Header.ofLine? s.header).getD ⟨[], []⟩)

variable (number : Nat) (s : Span)

theorem block_eq : s.block number = { s.intakes.foldl Intake.into (s.start number) with
    endLine := number + s.inner.length + 1
    trailer := Text.nonempty? (Text.trim s.closing.rest) } := by
  have hopened : s.opened number
      = (s.entries.map Entry.intake).foldl Intake.into (s.start number) := by
    rw [opened, List.foldl_map]
    rfl
  have hclosed : (s.opened number).closed s.closing.depth s.closing.tally s.last
      = s.intakes.foldl Intake.into (s.start number) := by
    rw [intakes, List.foldl_append, ← hopened, Entry.codeIntakes, ModuleBlock.closed]
    change (if Text.isBlankText s.closing.code then _ else _) = _
    by_cases hc : Text.isBlankText s.closing.code
    · rw [if_pos hc, if_pos hc]
      rfl
    · rw [if_neg hc, if_neg hc]
      rfl
  rw [block, ModuleBlock.close_eq, hclosed]
  rfl

theorem block_add (k : Nat) : s.block (number + k) = (s.block number).shift k := by
  have hstart : s.start (number + k) = (s.start number).shift k := rfl
  rw [block_eq, block_eq, hstart, Intake.shift_foldl_into, ModuleBlock.shift,
    Nat.add_right_comm number k, Nat.add_right_comm (number + s.inner.length) k]
  rfl

theorem body_block : (s.block number).body = s.intakes.flatMap Intake.share := by
  rw [block_eq]
  exact Intake.body_foldl_into s.intakes (s.start number)

theorem trailer_block : (s.block number).trailer = Text.nonempty? (Text.trim s.closing.rest) := by
  rw [block_eq]

theorem source_block : (s.block number).source
    = (s.intakes.foldl Intake.into (s.start number)).source := by
  rw [block_eq]

end Span

end SourceSwitch
