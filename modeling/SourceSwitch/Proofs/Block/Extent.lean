import SourceSwitch.Block.Reader
import SourceSwitch.Proofs.Block.Attribute

namespace SourceSwitch

open SourceSwitch.Bracket (Carry Tally)

namespace Bracket.Carry

def nextAll (carry : Carry) : List Text → Carry
  | [] => carry
  | line :: rest => (carry.next line).nextAll rest

def netAll (carry : Carry) : List Text → Int
  | [] => 0
  | line :: rest => carry.net line + (carry.next line).netAll rest

def StaysOpen (depth : Int) (carry : Carry) : List Text → Prop
  | [] => True
  | line :: rest =>
    0 < depth + carry.net line ∧ (carry.next line).StaysOpen (depth + carry.net line) rest

@[simp] theorem nextAll_append (carry : Carry) (v w : List Text) :
    carry.nextAll (v ++ w) = (carry.nextAll v).nextAll w := by
  induction v generalizing carry with
  | nil => rfl
  | cons line v ih => exact ih _

@[simp] theorem netAll_append (carry : Carry) (v w : List Text) :
    carry.netAll (v ++ w) = carry.netAll v + (carry.nextAll v).netAll w := by
  induction v generalizing carry with
  | nil => exact (Int.zero_add _).symm
  | cons line v ih => simp [netAll, nextAll, ih, Int.add_assoc]

theorem exists_of_not_staysOpen {depth : Int} {carry : Carry} {lines : List Text}
    (h : ¬ carry.StaysOpen depth lines) : ∃ inner last rest, lines = inner ++ last :: rest ∧
      carry.StaysOpen depth inner ∧
      depth + carry.netAll inner + (carry.nextAll inner).net last ≤ 0 := by
  induction lines generalizing depth carry with
  | nil => exact absurd trivial h
  | cons line lines ih =>
    by_cases hl : 0 < depth + carry.net line
    · obtain ⟨inner, last, rest, rfl, hopen, hlast⟩ := ih fun h' => h ⟨hl, h'⟩
      refine ⟨line :: inner, last, rest, rfl, ⟨hl, hopen⟩, ?_⟩
      rw [netAll, nextAll]
      omega
    · exact ⟨[], line, lines, rfl, trivial, by rw [netAll, nextAll]; omega⟩

end Bracket.Carry

/-- A line of a declaration behind its header, with what is known before it. -/
structure Entry where
  depth : Int
  carry : Carry
  line : Text
deriving DecidableEq, Repr

namespace Entry

def tally (e : Entry) : Tally := (e.carry.scanAtDepth e.depth e.line).1

/-- At the declaration's own level, and read as code. -/
def IsDirect (e : Entry) : Prop := e.depth = 1 ∧ e.carry = .code

instance : DecidablePred IsDirect := fun e =>
  inferInstanceAs (Decidable (e.depth = 1 ∧ e.carry = .code))

def ofLines (depth : Int) (carry : Carry) : List Text → List Entry
  | [] => []
  | line :: rest => ⟨depth, carry, line⟩ :: ofLines (depth + carry.net line) (carry.next line) rest

end Entry

/-- The lines of a declaration. -/
structure Span where
  header : Text
  inner : List Text
  last : Text
deriving DecidableEq, Repr

namespace Span

def lines (s : Span) : List Text := s.header :: s.inner ++ [s.last]

def depth (s : Span) : Int := Carry.code.net s.header

def entries (s : Span) : List Entry := Entry.ofLines s.depth .code s.inner

def closing (s : Span) : Entry :=
  ⟨s.depth + Carry.code.netAll s.inner, Carry.code.nextAll s.inner, s.last⟩

def carry (s : Span) : Carry := s.closing.carry.next s.last

structure IsComplete (s : Span) : Prop where
  header_isSome : (Header.ofLine? s.header).isSome
  staysOpen : Carry.code.StaysOpen s.depth s.inner
  closes : s.closing.depth + s.closing.carry.net s.last ≤ 0

def opened (number : Nat) (s : Span) : ModuleBlock :=
  s.entries.foldl (fun b e => b.take e.depth e.tally e.line)
    (.ofHeader number s.header ((Header.ofLine? s.header).getD ⟨[], []⟩))

def block (number : Nat) (s : Span) : ModuleBlock :=
  (s.opened number).close (number + s.inner.length + 1) s.closing.depth s.closing.tally s.last

end Span

inductive Piece where
  | line (line : Text)
  | block (s : Span)

namespace Piece

def lines : Piece → List Text
  | line l => [l]
  | block s => s.lines

def blocks (number : Nat) : List Piece → List ModuleBlock
  | [] => []
  | line _ :: ps => blocks (number + 1) ps
  | block s :: ps => s.block number :: blocks (number + s.lines.length) ps

end Piece

/-- How lines that are entered with a carry fall into pieces. -/
inductive Splits : Carry → List Text → List Piece → Prop where
  | nil {carry : Carry} : Splits carry [] []
  | line {carry : Carry} {l : Text} {lines : List Text} {ps : List Piece} :
      (carry = .code → Header.ofLine? l = none) → Splits (carry.next l) lines ps →
      Splits carry (l :: lines) (.line l :: ps)
  | block {s : Span} {lines : List Text} {ps : List Piece} : s.IsComplete →
      Splits s.carry lines ps → Splits .code (s.lines ++ lines) (.block s :: ps)
  /-- A declaration that is never closed takes the lines to the end. -/
  | unclosed {l : Text} {lines : List Text} : (Header.ofLine? l).isSome →
      Carry.code.StaysOpen (Carry.code.net l) lines →
      Splits .code (l :: lines) ((l :: lines).map .line)

variable {carry : Carry} {lines : List Text} {ps : List Piece}

theorem exists_splits (carry : Carry) (lines : List Text) : ∃ ps, Splits carry lines ps := by
  -- The lines behind a span are fewer, but they are no tail of the list that is taken apart.
  induction hn : lines.length using Nat.strongRecOn generalizing carry lines with
  | _ n ih =>
    subst hn
    cases lines with
    | nil => exact ⟨[], .nil⟩
    | cons l lines =>
      by_cases hl : carry = .code → Header.ofLine? l = none
      · obtain ⟨ps, hps⟩ := ih lines.length (by simp) (carry.next l) lines rfl
        exact ⟨_, .line hl hps⟩
      · obtain ⟨rfl, hh⟩ := Classical.not_imp.mp hl
        have hh' : (Header.ofLine? l).isSome := Option.isSome_iff_ne_none.mpr hh
        by_cases hopen : Carry.code.StaysOpen (Carry.code.net l) lines
        · exact ⟨_, .unclosed hh' hopen⟩
        · obtain ⟨inner, last, rest, rfl, hinner, hlast⟩ := Carry.exists_of_not_staysOpen hopen
          let s : Span := ⟨l, inner, last⟩
          obtain ⟨ps, hps⟩ := ih rest.length (by simp; omega) s.carry rest rfl
          have hs : s.IsComplete := ⟨hh', hinner, hlast⟩
          have hlines : l :: (inner ++ last :: rest) = s.lines ++ rest := by simp [s, Span.lines]
          rw [hlines]
          exact ⟨_, .block hs hps⟩

namespace Splits

theorem lines_eq (h : Splits carry lines ps) : ps.flatMap Piece.lines = lines := by
  induction h with
  | nil => rfl
  | line _ _ ih => rw [List.flatMap_cons, ih]; rfl
  | block _ _ ih => rw [List.flatMap_cons, ih]; rfl
  | unclosed _ _ => rw [List.flatMap_map]; exact List.flatMap_singleton' _

end Splits

namespace Reader

theorem run_cons (number : Nat) (s : State) (l : Text) (rest : List Text) :
    run number s (l :: rest)
      = ((step number l s).2.toList ++ (run (number + 1) (step number l s).1 rest).1,
        (run (number + 1) (step number l s).1 rest).2) := rfl

theorem step_of_no_header {l : Text} (hl : carry = .code → Header.ofLine? l = none) (number : Nat) :
    step number l ⟨carry, none⟩ = (⟨carry.next l, none⟩, none) := by
  by_cases hc : carry = .code
  · subst hc
    simp only [step, Carry.verbatim_scan, hl rfl]
    rfl
  · simp only [step, Carry.verbatim_scan, ne_eq, hc, not_false_eq_true, decide_true, if_true]
    rfl

theorem step_of_header {l : Text} {h : Header} (hl : Header.ofLine? l = some h) (number : Nat) :
    step number l ⟨.code, none⟩
      = (⟨.code, some (Carry.code.net l, .ofHeader number l h)⟩, none) := by
  have hnext : (Carry.code.scan l).2 = .code := Header.next_code hl
  simp only [step, Carry.verbatim_scan, hl]
  simp [hnext, Carry.net]

theorem step_of_open {l : Text} {d : Int} (hl : 0 < d + carry.net l) (number : Nat)
    (b : ModuleBlock) :
    step number l ⟨carry, some (d, b)⟩ = (⟨carry.next l,
      some (d + carry.net l, b.take d (carry.scanAtDepth d l).1 l)⟩, none) := by
  have hl' : ¬ d + carry.net l ≤ 0 := by omega
  simp [step, hl']

theorem step_of_close {l : Text} {d : Int} (hl : d + carry.net l ≤ 0) (number : Nat)
    (b : ModuleBlock) :
    step number l ⟨carry, some (d, b)⟩ = (⟨carry.next l, none⟩,
      some (b.close number d (carry.scanAtDepth d l).1 l)) := by
  simp [step, hl]

theorem run_of_staysOpen {d : Int} {inner : List Text} (h : carry.StaysOpen d inner) (number : Nat)
    (b : ModuleBlock) (rest : List Text) :
    run number ⟨carry, some (d, b)⟩ (inner ++ rest)
      = run (number + inner.length) ⟨carry.nextAll inner, some (d + carry.netAll inner,
          (Entry.ofLines d carry inner).foldl (fun b e => b.take e.depth e.tally e.line)
            b)⟩ rest := by
  induction inner generalizing carry d number b with
  | nil => simp [Carry.nextAll, Carry.netAll, Entry.ofLines]
  | cons l inner ih =>
    obtain ⟨hl, hinner⟩ := h
    rw [List.cons_append, run_cons, step_of_open hl, Option.toList_none, List.nil_append, ih hinner,
      Carry.nextAll, Carry.netAll, Entry.ofLines, List.foldl_cons, List.length_cons, Int.add_assoc,
      Nat.add_assoc, Nat.add_comm 1]
    rfl

theorem run_span {s : Span} (h : s.IsComplete) (number : Nat) (rest : List Text) :
    run number ⟨.code, none⟩ (s.lines ++ rest)
      = (s.block number :: (run (number + s.lines.length) ⟨s.carry, none⟩ rest).1,
        (run (number + s.lines.length) ⟨s.carry, none⟩ rest).2) := by
  obtain ⟨hd, hhd⟩ := Option.isSome_iff_exists.mp h.header_isSome
  have hlines : s.lines ++ rest = s.header :: (s.inner ++ s.last :: rest) := by simp [Span.lines]
  have hlength : number + s.lines.length = number + 1 + s.inner.length + 1 := by
    simp [Span.lines]
    omega
  have hopened : s.opened number = s.entries.foldl (fun b e => b.take e.depth e.tally e.line)
      (.ofHeader number s.header hd) := by
    rw [Span.opened, hhd, Option.getD_some]
  have hinner : run (number + 1) ⟨.code, some (s.depth, .ofHeader number s.header hd)⟩
      (s.inner ++ s.last :: rest) = run (number + 1 + s.inner.length)
        ⟨s.closing.carry, some (s.closing.depth, s.opened number)⟩ (s.last :: rest) := by
    rw [hopened]
    exact run_of_staysOpen h.staysOpen _ _ _
  rw [hlines, run_cons, step_of_header hhd, Option.toList_none, List.nil_append]
  apply hinner.trans
  rw [run_cons, step_of_close h.closes, hlength, Span.block, Nat.add_right_comm number]
  rfl

theorem run_unclosed {l : Text} {lines : List Text} {h : Header} (hl : Header.ofLine? l = some h)
    (hopen : Carry.code.StaysOpen (Carry.code.net l) lines) (number : Nat) :
    (run number ⟨.code, none⟩ (l :: lines)).1 = [] ∧
      (run number ⟨.code, none⟩ (l :: lines)).2.pending.isSome := by
  have hrun := run_of_staysOpen hopen (number + 1) (.ofHeader number l h) []
  rw [List.append_nil] at hrun
  rw [run_cons, step_of_header hl, Option.toList_none, List.nil_append, hrun]
  exact ⟨rfl, rfl⟩

end Reader

theorem Splits.append {carry' : Carry} {lines' : List Text} {ps' : List Piece}
    (h : Splits carry lines ps) (h' : Splits carry' lines' ps') {number : Nat}
    (hend : (Reader.run number ⟨carry, none⟩ lines).2 = ⟨carry', none⟩) :
    Splits carry (lines ++ lines') (ps ++ ps') := by
  induction h generalizing number with
  | nil =>
    obtain rfl := congrArg Reader.State.carry hend
    exact h'
  | line hl _ ih =>
    rw [Reader.run_cons, Reader.step_of_no_header hl] at hend
    exact .line hl (ih hend)
  | @block s lines ps hs _ ih =>
    rw [Reader.run_span hs] at hend
    rw [List.append_assoc]
    exact .block hs (ih hend)
  | unclosed hl hopen =>
    obtain ⟨h, hl⟩ := Option.isSome_iff_exists.mp hl
    have hpending := (Reader.run_unclosed hl hopen number).2
    rw [hend] at hpending
    cases hpending

theorem Piece.blocks_append (number : Nat) (ps ps' : List Piece) : blocks number (ps ++ ps')
    = blocks number ps ++ blocks (number + (ps.flatMap Piece.lines).length) ps' := by
  induction ps generalizing number with
  | nil => rfl
  | cons p ps ih =>
    cases p with
    | line l =>
      rw [List.cons_append, blocks, blocks, ih, List.flatMap_cons, List.length_append, Piece.lines,
        List.length_singleton, Nat.add_assoc]
    | block s =>
      rw [List.cons_append, blocks, blocks, ih, List.flatMap_cons, List.length_append, Piece.lines,
        Nat.add_assoc, List.cons_append]

theorem Piece.blocks_map_line (number : Nat) (lines : List Text) :
    blocks number (lines.map .line) = [] := by
  induction lines generalizing number with
  | nil => rfl
  | cons l lines ih => exact ih _

namespace Splits

theorem run_eq (h : Splits carry lines ps) (number : Nat) :
    (Reader.run number ⟨carry, none⟩ lines).1 = Piece.blocks number ps := by
  induction h generalizing number with
  | nil => rfl
  | line hl _ ih =>
    rw [Reader.run_cons, Reader.step_of_no_header hl]
    exact ih (number + 1)
  | block hs _ ih => rw [Reader.run_span hs, ih]; rfl
  | unclosed hl hopen =>
    obtain ⟨h, hl⟩ := Option.isSome_iff_exists.mp hl
    rw [(Reader.run_unclosed hl hopen number).1, Piece.blocks_map_line]

/-- The reader reports the spans, in their order. -/
theorem readBlocks_eq (h : Splits .code lines ps) : readBlocks lines = Piece.blocks 1 ps :=
  h.run_eq 1

end Splits

namespace ModuleBlock

def frame (b : ModuleBlock) : Text × Nat × Text × Text := (b.name, b.startLine, b.indent, b.header)

variable {b : ModuleBlock} {line : Text}

@[simp] theorem frame_keepComment (at? : Option Nat) :
    (b.keepComment line at?).frame = b.frame := by
  unfold keepComment
  split <;> rfl

@[simp] theorem frame_absorb (at? : Option Nat) : (b.absorb line at?).frame = b.frame := by
  unfold absorb
  split
  · exact frame_keepComment _
  · exact frame_keepComment _
  · rfl
  · rfl
  · rfl

@[simp] theorem frame_take (d : Int) (tally : Tally) : (b.take d tally line).frame = b.frame := by
  unfold take
  split
  · exact frame_absorb _
  · rfl

theorem frame_foldl_take (es : List Entry) (b : ModuleBlock) :
    (es.foldl (fun b e => b.take e.depth e.tally e.line) b).frame = b.frame := by
  induction es generalizing b with
  | nil => rfl
  | cons e es ih => rw [List.foldl_cons, ih, frame_take]

def closed (d : Int) (tally : Tally) (line : Text) (b : ModuleBlock) : ModuleBlock :=
  if Text.isBlankText (cut tally line).1 then b else b.take d tally
    (Text.trimEnd (cut tally line).1)

theorem close_eq (number : Nat) (d : Int) (tally : Tally) (line : Text) (b : ModuleBlock) :
    b.close number d tally line = { b.closed d tally line with
      endLine := number, trailer := Text.nonempty? (Text.trim (cut tally line).2) } := rfl

theorem frame_close (number : Nat) (d : Int) (tally : Tally) :
    (b.close number d tally line).frame = b.frame := by
  have hclosed : (b.closed d tally line).frame = b.frame := by
    unfold closed
    split
    · rfl
    · exact frame_take d tally
  rw [close_eq]
  exact hclosed

def slice (lines : List Text) (b : ModuleBlock) : List Text :=
  (lines.drop b.firstIndex).take b.height

def span (lines : List Text) (b : ModuleBlock) : Span where
  header := b.header
  inner := (lines.drop b.startLine).take (b.endLine - b.startLine - 1)
  last := (lines.drop (b.endLine - 1)).headD []

end ModuleBlock

namespace Span

variable {s : Span}

theorem frame_block (number : Nat) (s : Span) : (s.block number).frame
    = (((Header.ofLine? s.header).getD ⟨[], []⟩).name, number,
        ((Header.ofLine? s.header).getD ⟨[], []⟩).indent, s.header) := by
  rw [block, ModuleBlock.frame_close, opened, ModuleBlock.frame_foldl_take]
  rfl

@[simp] theorem startLine_block (number : Nat) (s : Span) : (s.block number).startLine = number :=
  congrArg (·.2.1) (frame_block number s)

@[simp] theorem header_block (number : Nat) (s : Span) : (s.block number).header = s.header :=
  congrArg (·.2.2.2) (frame_block number s)

theorem name_block (number : Nat) (s : Span) :
    (s.block number).name = ((Header.ofLine? s.header).getD ⟨[], []⟩).name :=
  congrArg (·.1) (frame_block number s)

theorem indent_block (number : Nat) (s : Span) :
    (s.block number).indent = ((Header.ofLine? s.header).getD ⟨[], []⟩).indent :=
  congrArg (·.2.2.1) (frame_block number s)

@[simp] theorem endLine_block (number : Nat) (s : Span) :
    (s.block number).endLine = number + s.inner.length + 1 := rfl

@[simp] theorem length_lines (s : Span) : s.lines.length = s.inner.length + 2 := by
  simp [lines]

theorem slice_block (s : Span) (v w : List Text) :
    (s.block (1 + v.length)).slice (v ++ s.lines ++ w) = s.lines := by
  have hfirst : (s.block (1 + v.length)).firstIndex = v.length := by
    simp [ModuleBlock.firstIndex]
  have hheight : (s.block (1 + v.length)).height = s.lines.length := by
    rw [ModuleBlock.height, hfirst, endLine_block, length_lines]
    omega
  rw [ModuleBlock.slice, hfirst, hheight, List.append_assoc, List.drop_left, List.take_left]

theorem span_block (s : Span) (v w : List Text) :
    (s.block (1 + v.length)).span (v ++ s.lines ++ w) = s := by
  have hinner : (v ++ s.lines ++ w).drop (1 + v.length) = s.inner ++ (s.last :: w) := by
    rw [List.append_assoc, Nat.add_comm, List.drop_append]
    simp [lines]
  have hlast : (v ++ s.lines ++ w).drop (1 + v.length + s.inner.length) = s.last :: w := by
    rw [← List.drop_drop, hinner]
    simp
  have hlength : 1 + v.length + s.inner.length + 1 - (1 + v.length) - 1 = s.inner.length := by omega
  simp only [ModuleBlock.span, startLine_block, endLine_block, header_block, hinner]
  rw [Nat.add_sub_cancel, hlast, hlength, List.take_left]
  rfl

end Span

theorem exists_of_mem_blocks {number : Nat} {b : ModuleBlock} (h : b ∈ Piece.blocks number ps) :
    ∃ ps₁ s ps₂, ps = ps₁ ++ .block s :: ps₂ ∧
      b = s.block (number + (ps₁.flatMap Piece.lines).length) := by
  induction ps generalizing number with
  | nil => cases h
  | cons p ps ih =>
    cases p with
    | line l =>
      obtain ⟨ps₁, s, ps₂, rfl, rfl⟩ := ih h
      exact ⟨.line l :: ps₁, s, ps₂, rfl, by simp [Piece.lines, Nat.add_assoc, Nat.add_comm]⟩
    | block s =>
      rcases List.mem_cons.mp h with rfl | h
      · exact ⟨[], s, ps, rfl, rfl⟩
      · obtain ⟨ps₁, s', ps₂, rfl, rfl⟩ := ih h
        refine ⟨.block s :: ps₁, s', ps₂, rfl, ?_⟩
        simp [Piece.lines, Nat.add_assoc]

theorem Splits.isComplete {s : Span} (h : Splits carry lines ps) (hs : .block s ∈ ps) :
    s.IsComplete := by
  induction h with
  | nil => cases hs
  | line _ _ ih =>
    rcases List.mem_cons.mp hs with hs | hs
    · cases hs
    · exact ih hs
  | block hs' _ ih =>
    rcases List.mem_cons.mp hs with hs | hs
    · cases hs
      exact hs'
    · exact ih hs
  | unclosed _ _ =>
    obtain ⟨l, -, hl⟩ := List.mem_map.mp hs
    cases hl

theorem exists_span_of_mem_readBlocks {b : ModuleBlock} (h : b ∈ readBlocks lines) :
    ∃ v s w, lines = v ++ s.lines ++ w ∧ s.IsComplete ∧ b = s.block (1 + v.length) ∧
      b.span lines = s := by
  obtain ⟨ps, hps⟩ := exists_splits .code lines
  rw [hps.readBlocks_eq] at h
  obtain ⟨ps₁, s, ps₂, rfl, rfl⟩ := exists_of_mem_blocks h
  have hlines : lines = ps₁.flatMap Piece.lines ++ s.lines ++ ps₂.flatMap Piece.lines := by
    rw [← hps.lines_eq]
    simp [Piece.lines]
  refine ⟨_, s, _, hlines, hps.isComplete (List.mem_append_right _ List.mem_cons_self), rfl, ?_⟩
  conv_lhs => rw [hlines]
  exact Span.span_block s _ _

end SourceSwitch
