import Mathlib.Order.Bounds.Basic
import SourceSwitch.Proofs.Block.RoundTrip

namespace SourceSwitch

open SourceSwitch.Bracket (Carry)

/-- The line at an index is a header, and neither a comment nor a here-document is open before
it. -/
def IsCandidate (lines : List Text) (i : Nat) : Prop :=
  Carry.code.nextAll (lines.take i) = .code ∧ ∃ l ∈ lines[i]?, (Header.ofLine? l).isSome

def netBetween (lines : List Text) (i j : Nat) : Int :=
  (Carry.code.nextAll (lines.take i)).netAll ((lines.take (j + 1)).drop i)

/-- A line behind the candidate at `i`, up to which no bracket stays open. -/
def IsClosedAt (lines : List Text) (i j : Nat) : Prop :=
  i < j ∧ j < lines.length ∧ netBetween lines i j ≤ 0

/-- The first and the last lines of the declarations from a line on: the first candidate, the first
line at which it is closed, and the search goes on behind that. -/
inductive Extents (lines : List Text) : Nat → List (Nat × Nat) → Prop where
  | nil {start : Nat} : (∀ i, start ≤ i → ¬ IsCandidate lines i) → Extents lines start []
  | unclosed {start i : Nat} : IsLeast {i | start ≤ i ∧ IsCandidate lines i} i →
      (∀ j, ¬ IsClosedAt lines i j) → Extents lines start []
  | cons {start i j : Nat} {es : List (Nat × Nat)} :
      IsLeast {i | start ≤ i ∧ IsCandidate lines i} i → IsLeast {j | IsClosedAt lines i j} j →
      Extents lines (j + 1) es → Extents lines start ((i, j) :: es)

variable {lines front inner rest : List Text} {carry : Carry} {ps : List Piece} {start i j k : Nat}
  {es es' : List (Nat × Nat)} {d : Int} {l : Text}

theorem Extents.unique (h : Extents lines start es) (h' : Extents lines start es') : es = es' := by
  induction h generalizing es' with
  | nil hnone =>
    cases h' with
    | nil | unclosed => rfl
    | cons hi => exact absurd hi.1.2 (hnone _ hi.1.1)
  | unclosed hi hopen =>
    cases h' with
    | nil | unclosed => rfl
    | cons hi' hj =>
      obtain rfl := hi.unique hi'
      exact absurd hj.1 (hopen _)
  | cons hi hj _ ih =>
    cases h' with
    | nil hnone => exact absurd hi.1.2 (hnone _ hi.1.1)
    | unclosed hi' hopen =>
      obtain rfl := hi.unique hi'
      exact absurd hj.1 (hopen _)
    | cons hi' hj' hes' =>
      obtain rfl := hi.unique hi'
      obtain rfl := hj.unique hj'
      rw [ih hes']

theorem candidates_succ (hstart : ¬ IsCandidate lines start) :
    {i | start + 1 ≤ i ∧ IsCandidate lines i} = {i | start ≤ i ∧ IsCandidate lines i} := by
  ext i
  refine and_congr_left fun hi => ⟨Nat.le_of_succ_le, fun hle => ?_⟩
  refine Nat.lt_of_le_of_ne hle ?_
  rintro rfl
  exact hstart hi

theorem Extents.of_succ (hstart : ¬ IsCandidate lines start) (h : Extents lines (start + 1) es) :
    Extents lines start es := by
  have hset := candidates_succ hstart
  cases h with
  | nil hnone =>
    refine .nil fun i hle hi => ?_
    have hmem : i ∈ {i | start + 1 ≤ i ∧ IsCandidate lines i} := hset ▸ ⟨hle, hi⟩
    exact hnone i hmem.1 hi
  | unclosed hi hopen => exact .unclosed (hset ▸ hi) hopen
  | cons hi hj hes => exact .cons (hset ▸ hi) hj hes

theorem isCandidate_length_iff (hcarry : Carry.code.nextAll front = carry) :
    IsCandidate (front ++ l :: rest) front.length ↔ carry = .code ∧ (Header.ofLine? l).isSome := by
  rw [IsCandidate, List.take_left, hcarry, List.getElem?_append_right (Nat.le_refl _)]
  simp

theorem isLeast_length (h : IsCandidate lines start) :
    IsLeast {i | start ≤ i ∧ IsCandidate lines i} start :=
  ⟨⟨Nat.le_refl start, h⟩, fun _ hi => hi.1⟩

theorem netBetween_append (front lines : List Text) (k : Nat) :
    netBetween (front ++ lines) front.length (front.length + k)
      = (Carry.code.nextAll front).netAll (lines.take (k + 1)) := by
  rw [netBetween, List.take_left, Nat.add_assoc, List.take_length_add_append, List.drop_left]

theorem netAll_take_pos (h : carry.StaysOpen d lines) (hk : k < lines.length) :
    0 < d + carry.netAll (lines.take (k + 1)) := by
  induction k generalizing carry d lines with
  | zero =>
    obtain ⟨l, lines, rfl⟩ := List.exists_cons_of_length_pos hk
    simpa [Carry.netAll] using h.1
  | succ k ih =>
    obtain ⟨l, lines, rfl⟩ := List.exists_cons_of_length_pos (Nat.zero_lt_of_lt hk)
    have hrest := ih h.2 (Nat.lt_of_succ_lt_succ hk)
    rw [List.take_succ_cons, Carry.netAll]
    omega

/-- As long as lines stay open, no line closes the candidate in front of them. -/
theorem lt_of_isClosedAt (hcarry : Carry.code.nextAll front = .code)
    (hl : (Header.ofLine? l).isSome)
    (hopen : Carry.code.StaysOpen (Carry.code.net l) inner)
    (h : IsClosedAt (front ++ l :: (inner ++ rest)) front.length j) :
    front.length + inner.length < j := by
  obtain ⟨hlt, -, hnet⟩ := h
  by_contra hle
  obtain ⟨k, rfl⟩ : ∃ k, j = front.length + (k + 1) := ⟨j - front.length - 1, by omega⟩
  obtain ⟨h, hh⟩ := Option.isSome_iff_exists.mp hl
  have hpos := netAll_take_pos hopen (show k < inner.length by omega)
  rw [netBetween_append, hcarry, List.take_succ_cons, List.take_append_of_le_length (by omega),
    Carry.netAll, Header.next_code hh] at hnet
  omega

theorem isLeast_isClosedAt {s : Span} (hcarry : Carry.code.nextAll front = .code)
    (hs : s.IsComplete) :
    IsLeast {j | IsClosedAt (front ++ (s.lines ++ rest)) front.length j}
      (front.length + s.inner.length + 1) := by
  have hlines : s.lines ++ rest = s.header :: (s.inner ++ s.last :: rest) := by simp [Span.lines]
  obtain ⟨h, hh⟩ := Option.isSome_iff_exists.mp hs.header_isSome
  rw [hlines]
  refine ⟨⟨by omega, by simp; omega, ?_⟩, fun j hj =>
    lt_of_isClosedAt hcarry hs.header_isSome hs.staysOpen hj⟩
  have htake : (s.header :: (s.inner ++ s.last :: rest)).take (s.inner.length + 1 + 1)
      = s.header :: (s.inner ++ [s.last]) := by
    rw [List.take_succ_cons, List.take_length_add_append]
    rfl
  have hcloses : Carry.code.net s.header + Carry.code.netAll s.inner
      + (Carry.code.nextAll s.inner).net s.last ≤ 0 := hs.closes
  rw [Nat.add_assoc, netBetween_append, hcarry, htake, Carry.netAll, Header.next_code hh,
    Carry.netAll_append, Carry.netAll, Carry.netAll]
  omega

theorem nextAll_lines {s : Span} (hs : s.IsComplete) : Carry.code.nextAll s.lines = s.carry := by
  obtain ⟨h, hh⟩ := Option.isSome_iff_exists.mp hs.header_isSome
  simp [Carry.nextAll, Span.lines, Header.next_code hh, Span.carry, Span.closing]

namespace Extents

theorem end_nil (lines : List Text) : Extents lines lines.length [] := by
  refine .nil fun i hle hi => ?_
  obtain ⟨l, hl, -⟩ := hi.2
  rw [List.getElem?_eq_none hle] at hl
  cases hl

theorem line (hcarry : Carry.code.nextAll front = carry)
    (hl : carry = .code → Header.ofLine? l = none)
    (h : Extents (front ++ l :: rest) (front ++ [l]).length es) :
    Extents (front ++ l :: rest) front.length es := by
  rw [List.length_append, List.length_singleton] at h
  refine h.of_succ fun hstart => ?_
  obtain ⟨hcode, hsome⟩ := (isCandidate_length_iff hcarry).mp hstart
  rw [hl hcode] at hsome
  cases hsome

theorem span {s : Span} (hcarry : Carry.code.nextAll front = .code) (hs : s.IsComplete)
    (h : Extents (front ++ (s.lines ++ rest)) (front ++ s.lines).length es) :
    Extents (front ++ (s.lines ++ rest)) front.length
      ((front.length, front.length + s.inner.length + 1) :: es) := by
  refine .cons ?_ (isLeast_isClosedAt hcarry hs) ?_
  · apply isLeast_length
    exact (isCandidate_length_iff hcarry).mpr ⟨rfl, hs.header_isSome⟩
  · rwa [List.length_append, Span.length_lines, ← Nat.add_assoc] at h

theorem unclosed_end (hcarry : Carry.code.nextAll front = .code) (hl : (Header.ofLine? l).isSome)
    (hopen : Carry.code.StaysOpen (Carry.code.net l) lines) :
    Extents (front ++ l :: lines) front.length [] := by
  refine .unclosed (i := front.length) ?_ fun j hj => ?_
  · apply isLeast_length
    exact (isCandidate_length_iff hcarry).mpr ⟨rfl, hl⟩
  · have hend := hj.2.1
    rw [← List.append_nil lines] at hj
    have hlt := lt_of_isClosedAt hcarry hl hopen hj
    simp at hend
    omega

end Extents

theorem Splits.exists_extents (h : Splits carry lines ps)
    (hcarry : Carry.code.nextAll front = carry) :
    ∃ es, Extents (front ++ lines) front.length es ∧
      (Piece.blocks (1 + front.length) ps).map (fun b => (b.startLine, b.endLine))
        = es.map fun (i, j) => (i + 1, j + 1) := by
  -- The lines in front are generalised: they grow by each piece that is passed.
  induction h generalizing front with
  | nil =>
    rw [List.append_nil]
    exact ⟨[], .end_nil front, rfl⟩
  | @line carry l lines ps hl _ ih =>
    have hfront : Carry.code.nextAll (front ++ [l]) = carry.next l := by
      simp [Carry.nextAll, hcarry]
    obtain ⟨es, hes, hblocks⟩ := ih hfront
    rw [List.append_assoc] at hes
    refine ⟨es, .line hcarry hl hes, ?_⟩
    rw [Piece.blocks, ← hblocks, List.length_append, List.length_singleton, Nat.add_assoc]
  | @block s lines ps hs _ ih =>
    have hfront : Carry.code.nextAll (front ++ s.lines) = s.carry := by
      rw [Carry.nextAll_append, hcarry, nextAll_lines hs]
    obtain ⟨es, hes, hblocks⟩ := ih hfront
    rw [List.append_assoc] at hes
    refine ⟨_, .span hcarry hs hes, ?_⟩
    rw [List.length_append, ← Nat.add_assoc] at hblocks
    rw [Piece.blocks, List.map_cons, List.map_cons, hblocks, Span.startLine_block,
      Span.endLine_block, Nat.add_comm 1, Nat.add_right_comm front.length 1]
  | unclosed hl hopen =>
    refine ⟨[], .unclosed_end hcarry hl hopen, ?_⟩
    rw [Piece.blocks_map_line]
    rfl

/-- The reader reports the declarations at the extents, in their order. Each one has the name and
the indent of the header that it starts with, and its own lines alone are read as the same
declaration. -/
theorem readBlocks_isExact (lines : List Text) :
    (∃ es, Extents lines 0 es ∧ (∀ es', Extents lines 0 es' → es' = es) ∧
      (readBlocks lines).map (fun b => (b.startLine, b.endLine))
        = es.map fun (i, j) => (i + 1, j + 1)) ∧
    ∀ b ∈ readBlocks lines, lines[b.firstIndex]? = some b.header ∧
      Header.ofLine? b.header = some ⟨b.indent, b.name⟩ ∧
      readBlocks (b.slice lines) = [{ b with startLine := 1, endLine := b.height }] := by
  constructor
  · obtain ⟨ps, hps⟩ := exists_splits .code lines
    have hfront : Carry.code.nextAll [] = .code := rfl
    obtain ⟨es, hes, hblocks⟩ := hps.exists_extents hfront
    refine ⟨es, hes, fun es' hes' => hes'.unique hes, ?_⟩
    rw [hps.readBlocks_eq]
    exact hblocks
  · intro b hb
    obtain ⟨v, s, w, rfl, hs, rfl, -⟩ := exists_span_of_mem_readBlocks hb
    obtain ⟨h, hh⟩ := Option.isSome_iff_exists.mp hs.header_isSome
    refine ⟨?_, ?_, ?_⟩
    · simp [ModuleBlock.firstIndex, Span.lines]
    · rw [Span.header_block, Span.indent_block, Span.name_block, hh]
      rfl
    · have hheight : (s.block (1 + v.length)).height = (s.block 1).endLine := by
        simp [ModuleBlock.height, ModuleBlock.firstIndex]
        omega
      have hstart := s.startLine_block 1
      rw [Span.slice_block, ModuleBlock.readBlocks_lines hs, hheight, Span.block_add]
      generalize s.block 1 = b at hstart
      cases b
      cases hstart
      rfl

/-- A header in a here-document, two declarations, and one that is never closed with one inside. -/
def fiveHeaders : List Text :=
  ["note = <<EOT", r#"module "quoted" {"#, "EOT", r#"  module "vnet" {"#, r"    tags = {",
    r"    } } # {", r#"module "dns" {"#, r#"  source = "../../""#, r"}", r#"module "open" {"#,
    r#"  module "inner" {"#, r"  }"]

def dns : ModuleBlock where
  name := "dns"
  startLine := 7
  endLine := 9
  indent := []
  header := r#"module "dns" {"#
  source := some "../../".toList
  commentedSource := none
  version := none
  body := []
  trailer := none

theorem readBlocks_isExact_fiveHeaders :
    Extents fiveHeaders 0 [(3, 5), (6, 8)] ∧ dns ∈ readBlocks fiveHeaders ∧
      readBlocks (dns.slice fiveHeaders) = [{ dns with startLine := 1, endLine := 3 }] := by
  obtain ⟨⟨es, hes, -, hblocks⟩, hown⟩ := readBlocks_isExact fiveHeaders
  have hread : (readBlocks fiveHeaders).map (fun b => (b.startLine, b.endLine))
      = [(4, 6), (7, 9)] := by
    decide +kernel
  have hmem : dns ∈ readBlocks fiveHeaders := by decide +kernel
  have hinjective : Function.Injective fun e : Nat × Nat => (e.1 + 1, e.2 + 1) := by
    rintro ⟨i, j⟩ ⟨k, l⟩ h
    simpa using h
  obtain rfl : es = [(3, 5), (6, 8)] :=
      List.map_injective_iff.mpr hinjective (hblocks.symm.trans hread)
  exact ⟨hes, hmem, (hown dns hmem).2.2⟩

end SourceSwitch
